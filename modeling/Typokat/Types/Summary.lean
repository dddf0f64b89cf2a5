import Typokat.Types.Reach

/-!
# Exact Application Summaries

What the discovery loop and the worklist of `compute_application_summaries` compute,
stated on the graph alone: a parameter is free below a row when some path to an
occurrence of it passes no binder of it, and a row retains the mapper when it reaches a
distribution guard.  Both only speak of rows that exist (`Store.Grounded`).

## Main Results

- `Store.FreeIn`, `Store.Retains`, `Store.Grounded` : the meaning of a summary
- `Interner.computeApplicationSummaries_exact` : what is computed is exact
- `Interner.computeApplicationSummaries_isSome` : it is computed for every grounded root
-/

namespace Typokat.Types

/-! ## §1 The meaning of a summary -/

namespace Store

/-- `child` is one of the ids a substitution at `parent` follows. -/
def Edge (s : Store) (parent child : TypeId) : Prop :=
  ∃ r, s.row parent = some r ∧ child ∈ r.applyChildren

/-- `node` is on some path below `ty`. -/
def Reaches (s : Store) : TypeId → TypeId → Prop := Relation.ReflTransGen s.Edge

/-- Every id below `ty` has a row. -/
def Grounded (s : Store) (ty : TypeId) : Prop :=
  ∀ node, s.Reaches ty node → ∃ r, s.row node = some r

/-- The parameter occurs below `ty` on a path that passes no binder of it. -/
inductive FreeIn (s : Store) : TypeId → TypeParamId → Prop
  | own {ty : TypeId} {p : TypeParamId} {r : Row} :
      s.row ty = some r → p ∈ s.ownParameters r → FreeIn s ty p
  | child {ty c : TypeId} {p : TypeParamId} :
      s.Edge ty c → FreeIn s c p → p ∉ s.nodeBinders ty → FreeIn s ty p

/-- A row with a distribution guard is reached. -/
def Retains (s : Store) (ty : TypeId) : Prop :=
  ∃ node r, s.Reaches ty node ∧ s.row node = some r ∧ r.retainsFullMapper = true

/-- The list is the sorted list of the parameters that are free below a grounded id. -/
structure ExactFree (s : Store) (ty : TypeId) (freeParams : List TypeParamId) : Prop where
  grounded : s.Grounded ty
  mem_iff : ∀ p, p ∈ freeParams ↔ s.FreeIn ty p
  sorted : freeParams.Pairwise (· < ·)

/-- The mode says whether a grounded id retains the mapper. -/
structure ExactMode (s : Store) (ty : TypeId) (mode : ApplicationKeyMode) : Prop where
  grounded : s.Grounded ty
  fullMap_iff : mode = .fullMap ↔ s.Retains ty

variable {s : Store} {ty : TypeId}

theorem Grounded.child (h : s.Grounded ty) {c : TypeId} (hc : s.Edge ty c) : s.Grounded c :=
  fun node hnode => h node (.head hc hnode)

theorem Retains.child {c : TypeId} (hc : s.Edge ty c) (h : s.Retains c) : s.Retains ty := by
  obtain ⟨node, r, hreach, hr, hflag⟩ := h
  exact ⟨node, r, .head hc hreach, hr, hflag⟩

theorem ExactFree.unique {l l' : List TypeParamId} (h : s.ExactFree ty l) (h' : s.ExactFree ty l') :
    l = l' := by
  refine List.Pairwise.eq_of_mem_iff h.sorted h'.sorted (fun p => ?_)
  rw [h.mem_iff, h'.mem_iff]

theorem ExactMode.unique {mode mode' : ApplicationKeyMode} (h : s.ExactMode ty mode)
    (h' : s.ExactMode ty mode') : mode = mode' := by
  have hiff : mode = .fullMap ↔ mode' = .fullMap := h.fullMap_iff.trans h'.fullMap_iff.symm
  cases mode <;> cases mode' <;> simp at hiff <;> rfl

end Store

/-! ## §2 Discovery -/

section Discovery

open Interner Discovery SummaryValue List

/-- The exact value of both summaries, as far as a value speaks. -/
def Store.SoundValue (s : Store) (ty : TypeId) (value : SummaryValue) : Prop :=
  (∀ p ∈ value.1, s.FreeIn ty p) ∧ (value.2 = true → s.Retains ty)

/-- Both cached summaries of every id are exact. -/
def Interner.CachedExact (σ : Interner) : Prop :=
  ∀ ty summary, σ.cachedSummary ty = some summary →
    σ.store.ExactFree ty summary.freeParams ∧ σ.store.ExactMode ty summary.keyMode

variable {σ : Interner}

theorem soundValue_sup {s : Store} {ty : TypeId} {v w : SummaryValue} (hv : s.SoundValue ty v)
    (hw : s.SoundValue ty w) : s.SoundValue ty (v ⊔ w) := by
  refine ⟨fun p hp => ?_, fun hflag => ?_⟩
  · rcases Finset.mem_union.mp hp with hp | hp
    · exact hv.1 p hp
    · exact hw.1 p hp
  · rcases (Bool.or_eq_true _ _).mp hflag with hflag | hflag
    · exact hv.2 hflag
    · exact hw.2 hflag

/-- A sound value flows along an edge. -/
theorem soundValue_summaryFlow {s : Store} {ty c : TypeId} {v : SummaryValue} (hc : s.Edge ty c)
    (hv : s.SoundValue c v) : s.SoundValue ty (s.summaryFlow ty v) := by
  refine ⟨fun p hp => ?_, fun hflag => (hv.2 hflag).child hc⟩
  obtain ⟨hp, hbinders⟩ := Finset.mem_filter.mp hp
  exact .child hc (hv.1 p hp) hbinders

theorem soundValue_own {s : Store} {ty : TypeId} {r : Row} (hr : s.row ty = some r) :
    s.SoundValue ty ((s.ownParameters r).toFinset, r.retainsFullMapper) :=
  ⟨fun _ hp => .own hr (mem_toFinset.mp hp), fun hflag => ⟨ty, r, .refl, hr, hflag⟩⟩

theorem Interner.CachedExact.sound (hσ : σ.CachedExact) {ty : TypeId} {summary : ApplicationSummary}
    (h : σ.cachedSummary ty = some summary) : σ.store.SoundValue ty summary.value := by
  obtain ⟨hfree, hmode⟩ := hσ ty summary h
  refine ⟨fun p hp => (hfree.mem_iff p).mp (mem_toFinset.mp hp), fun hflag => ?_⟩
  exact hmode.fullMap_iff.mp (beq_iff_eq.mp hflag)

/-- The edge from a processed id to its child is accounted for. -/
def Discovery.Covers (σ : Interner) (state : Discovery) (ty child : TypeId) : Prop :=
  (∃ summary, σ.cachedSummary child = some summary ∧
    σ.store.summaryFlow ty summary.value ≤ state.values ty) ∨
  (child ∈ state.discovered ∧ ty ∈ state.parents child)

/-- An id whose row has been processed. -/
def Discovery.Done (σ : Interner) (state : Discovery) (ty : TypeId) : Prop :=
  ∃ r, σ.store.row ty = some r ∧
    ((σ.store.ownParameters r).toFinset, r.retainsFullMapper) ≤ state.values ty ∧
    ∀ child ∈ r.applyChildren, state.Covers σ ty child

/-- What holds of the loop state, whatever has been processed. -/
structure Discovery.Sound (σ : Interner) (root : TypeId) (state : Discovery) : Prop where
  root_mem : root ∈ state.discovered
  pending_mem : ∀ ty ∈ state.pending, ty ∈ state.discovered
  pending_nodup : state.pending.Nodup
  discovered_nodup : state.discovered.Nodup
  reaches : ∀ ty ∈ state.discovered, σ.store.Reaches root ty
  parents : ∀ child, ∀ ty ∈ state.parents child, σ.store.Edge ty child ∧ ty ∈ state.discovered
  values_off : ∀ ty, ty ∉ state.discovered → state.values ty = (∅, false)
  values : ∀ ty, σ.store.SoundValue ty (state.values ty)

/-- The loop state only gains. -/
structure Discovery.Gains (state state' : Discovery) : Prop where
  discovered : ∀ ty ∈ state.discovered, ty ∈ state'.discovered
  parents : ∀ child, ∀ ty ∈ state.parents child, ty ∈ state'.parents child
  values : ∀ ty, state.values ty ≤ state'.values ty

/-- The loop state gains, and what it newly discovers is pending. -/
structure Discovery.Le (state state' : Discovery) : Prop extends Discovery.Gains state state' where
  pending_iff : ∀ ty ∈ state.discovered, ty ∈ state'.pending ↔ ty ∈ state.pending
  fresh : ∀ ty ∈ state'.discovered, ty ∈ state.discovered ∨ ty ∈ state'.pending

theorem Discovery.Le.refl (state : Discovery) : state.Le state where
  discovered := fun _ h => h
  parents := fun _ _ h => h
  values := fun _ => le_rfl
  pending_iff := fun _ _ => .rfl
  fresh := fun _ h => .inl h

theorem Discovery.Le.trans {a b c : Discovery} (h₁ : a.Le b) (h₂ : b.Le c) : a.Le c where
  discovered := fun ty h => h₂.discovered ty (h₁.discovered ty h)
  parents := fun child ty h => h₂.parents child ty (h₁.parents child ty h)
  values := fun ty => (h₁.values ty).trans (h₂.values ty)
  pending_iff := fun ty h =>
    (h₂.pending_iff ty (h₁.discovered ty h)).trans (h₁.pending_iff ty h)
  fresh := by
    intro ty h
    rcases h₂.fresh ty h with hb | hc
    · rcases h₁.fresh ty hb with ha | hpending
      · exact .inl ha
      · exact .inr ((h₂.pending_iff ty hb).mpr hpending)
    · exact .inr hc

theorem Discovery.Covers.mono {state state' : Discovery} (hle : state.Gains state')
    {ty child : TypeId} (h : state.Covers σ ty child) : state'.Covers σ ty child := by
  rcases h with ⟨summary, hcached, hflow⟩ | ⟨hdisc, hparent⟩
  · exact .inl ⟨summary, hcached, hflow.trans (hle.values ty)⟩
  · exact .inr ⟨hle.discovered child hdisc, hle.parents child ty hparent⟩

theorem Discovery.Done.mono {state state' : Discovery} (hle : state.Gains state') {ty : TypeId}
    (h : state.Done σ ty) : state'.Done σ ty := by
  obtain ⟨r, hr, hown, hchildren⟩ := h
  exact ⟨r, hr, hown.trans (hle.values ty), fun child hc => (hchildren child hc).mono hle⟩

/-- Raising one value is a gain. -/
theorem le_update_sup {values : TypeId → SummaryValue} {ty : TypeId} (value : SummaryValue)
    (node : TypeId) : values node ≤ Function.update values ty (values ty ⊔ value) node := by
  by_cases hnode : node = ty
  · subst hnode
    simp
  · simp [hnode]

variable {state : Discovery}

theorem Discovery.Sound.raise {root ty : TypeId} {value : SummaryValue}
    (hstate : state.Sound σ root) (hty : ty ∈ state.discovered)
    (hvalue : σ.store.SoundValue ty value) :
    { state with values := Function.update state.values ty (state.values ty ⊔ value) }.Sound
      σ root := by
  refine { hstate with values_off := ?_, values := ?_ }
  · intro node hnode
    have hne : node ≠ ty := fun heq => hnode (heq ▸ hty)
    simpa [hne] using hstate.values_off node hnode
  · intro node
    by_cases hnode : node = ty
    · subst hnode
      simpa using soundValue_sup (hstate.values node) hvalue
    · simpa [hnode] using hstate.values node

/-- **One child of the popped id.** -/
theorem visitChild_spec (hσ : σ.CachedExact) {root ty child : TypeId} (hstate : state.Sound σ root)
    (hty : ty ∈ state.discovered) (hedge : σ.store.Edge ty child) :
    (σ.visitChild ty state child).Sound σ root ∧ state.Le (σ.visitChild ty state child) ∧
      (σ.visitChild ty state child).Covers σ ty child := by
  unfold visitChild
  cases hcached : σ.cachedSummary child with
  | some summary =>
    refine ⟨hstate.raise hty (soundValue_summaryFlow hedge (hσ.sound hcached)), ?_, ?_⟩
    · exact
        { Discovery.Le.refl state with
          values := le_update_sup _ }
    · exact .inl ⟨summary, hcached, by simp⟩
  | none =>
    dsimp only
    have hparents : ∀ c node, node ∈ Function.update state.parents child
        (state.parents child ++ [ty]) c ↔ node ∈ state.parents c ∨ (c = child ∧ node = ty) := by
      intro c node
      by_cases hc : c = child
      · subst hc
        simp
      · simp [hc]
    split
    · rename_i hdisc
      -- a known node gets one more parent
      refine ⟨{ hstate with parents := ?_ }, ?_, .inr ⟨hdisc, ?_⟩⟩
      · intro c node hnode
        rcases (hparents c node).mp hnode with hnode | ⟨rfl, rfl⟩
        · exact hstate.parents c node hnode
        · exact ⟨hedge, hty⟩
      · exact
          { Discovery.Le.refl state with
            parents := fun c node h => (hparents c node).mpr (.inl h) }
      · exact (hparents child ty).mpr (.inr ⟨rfl, rfl⟩)
    · rename_i hdisc
      refine ⟨?_, ?_, .inr ⟨by simp, (hparents child ty).mpr (.inr ⟨rfl, rfl⟩)⟩⟩
      · exact
          { root_mem := mem_cons_of_mem _ hstate.root_mem
            pending_mem := by
              intro node hnode
              rcases mem_cons.mp hnode with rfl | hnode
              · simp
              · exact mem_cons_of_mem _ (hstate.pending_mem node hnode)
            pending_nodup :=
              nodup_cons.mpr ⟨fun h => hdisc (hstate.pending_mem child h), hstate.pending_nodup⟩
            discovered_nodup := nodup_cons.mpr ⟨hdisc, hstate.discovered_nodup⟩
            reaches := by
              intro node hnode
              rcases mem_cons.mp hnode with rfl | hnode
              · exact (hstate.reaches ty hty).tail hedge
              · exact hstate.reaches node hnode
            parents := by
              intro c node hnode
              rcases (hparents c node).mp hnode with hnode | ⟨rfl, rfl⟩
              · exact ⟨(hstate.parents c node hnode).1,
                  mem_cons_of_mem _ (hstate.parents c node hnode).2⟩
              · exact ⟨hedge, mem_cons_of_mem _ hty⟩
            values_off := fun node hnode =>
              hstate.values_off node (fun h => hnode (mem_cons_of_mem _ h))
            values := hstate.values }
      · exact
          { discovered := fun _ h => mem_cons_of_mem _ h
            parents := fun c node h => (hparents c node).mpr (.inl h)
            values := fun _ => le_rfl
            pending_iff := by
              intro node hnode
              have hne : node ≠ child := fun heq => hdisc (heq ▸ hnode)
              simp [hne]
            fresh := by
              intro node hnode
              rcases mem_cons.mp hnode with rfl | hnode
              · exact .inr (by simp)
              · exact .inl hnode }

theorem foldl_visitChild_spec (hσ : σ.CachedExact) {root ty : TypeId} (children : List TypeId) :
    ∀ {state : Discovery}, state.Sound σ root → ty ∈ state.discovered →
      (∀ child ∈ children, σ.store.Edge ty child) →
      (children.foldl (σ.visitChild ty) state).Sound σ root ∧
        state.Le (children.foldl (σ.visitChild ty) state) ∧
        ∀ child ∈ children, (children.foldl (σ.visitChild ty) state).Covers σ ty child := by
  induction children with
  | nil => exact fun hstate _ _ => ⟨hstate, .refl _, fun _ h => by simp at h⟩
  | cons child children ih =>
    intro state hstate hty hedges
    obtain ⟨hsound, hle, hcovers⟩ := visitChild_spec hσ hstate hty (hedges child (by simp))
    obtain ⟨hsound', hle', hcovers'⟩ := ih hsound (hle.discovered ty hty)
      (fun c hc => hedges c (mem_cons_of_mem _ hc))
    refine ⟨hsound', hle.trans hle', fun c hc => ?_⟩
    rcases mem_cons.mp hc with rfl | hc
    · exact hcovers.mono hle'.toGains
    · exact hcovers' c hc

/-- The state in which the popped id has its own value. -/
def Discovery.popped (σ : Interner) (state : Discovery) (ty : TypeId) (pending : List TypeId)
    (row : Row) : Discovery :=
  { state with
    pending
    values := Function.update state.values ty (state.values ty ⊔
      ((σ.store.ownParameters row).toFinset, row.retainsFullMapper)) }

/-- Every discovered id is pending or processed. -/
def Discovery.Progress (σ : Interner) (state : Discovery) : Prop :=
  ∀ node ∈ state.discovered, node ∉ state.pending → state.Done σ node

/-- **One round of the loop**: the popped id is processed. -/
theorem discover_round (hσ : σ.CachedExact) {root ty : TypeId} {pending : List TypeId} {row : Row}
    (hstate : state.Sound σ root) (hpending : state.pending = ty :: pending)
    (hrow : σ.store.row ty = some row) (hdone : state.Progress σ) {next : Discovery}
    (hnext : next = row.applyChildren.foldl (σ.visitChild ty) (state.popped σ ty pending row)) :
    next.Sound σ root ∧ next.Progress σ ∧ (state.popped σ ty pending row).Le next := by
  have hty : ty ∈ state.discovered := hstate.pending_mem ty (by simp [hpending])
  have hnodup := hstate.pending_nodup
  rw [hpending, nodup_cons] at hnodup
  have hpopped : (state.popped σ ty pending row).Sound σ root :=
    { hstate.raise hty (soundValue_own hrow) with
      pending_mem := by
        intro node h
        refine hstate.pending_mem node ?_
        rw [hpending]
        exact mem_cons_of_mem _ h
      pending_nodup := hnodup.2 }
  have hgains : state.Gains (state.popped σ ty pending row) :=
    ⟨fun _ h => h, fun _ _ h => h, le_update_sup _⟩
  obtain ⟨hsound, hle, hcovers⟩ := foldl_visitChild_spec hσ row.applyChildren hpopped hty
    (fun child hc => ⟨row, hrow, hc⟩)
  rw [← hnext] at hsound hle hcovers
  refine ⟨hsound, fun node hnode hoff => ?_, hle⟩
  have hold : node ∈ state.discovered := (hle.fresh node hnode).resolve_right hoff
  by_cases heq : node = ty
  · subst heq
    refine ⟨row, hrow, le_trans ?_ (hle.values node), hcovers⟩
    simp [popped]
  · refine ((hdone node hold ?_).mono hgains).mono hle.toGains
    rw [hpending, mem_cons, not_or]
    exact ⟨heq, fun h => hoff ((hle.pending_iff node hold).mpr h)⟩

/-- **The discovery loop** ends with every discovered id processed. -/
theorem discover_spec (hσ : σ.CachedExact) {root : TypeId} {fuel : Nat} {state final : Discovery}
    (h : σ.discover fuel state = some final) (hstate : state.Sound σ root)
    (hdone : state.Progress σ) : final.Sound σ root ∧ ∀ node ∈ final.discovered,
      final.Done σ node := by
  induction fuel generalizing state with
  | zero =>
    unfold discover at h
    split at h
    · rename_i hpending
      cases h
      exact ⟨hstate, fun node hnode => hdone node hnode (by simp [hpending])⟩
    · cases h
  | succ fuel ih =>
    unfold discover at h
    split at h
    · rename_i hpending
      cases h
      exact ⟨hstate, fun node hnode => hdone node hnode (by simp [hpending])⟩
    · rename_i ty pending hpending
      cases hrow : σ.store.row ty with
      | none =>
        rw [hrow] at h
        cases h
      | some row =>
        rw [hrow] at h
        obtain ⟨hsound, hprogress, _⟩ := discover_round hσ hstate hpending hrow hdone rfl
        exact ih h hsound hprogress

/-- A grounded root is discovered with one unit of fuel for each row that is left. -/
theorem discover_isSome (hσ : σ.CachedExact) {root : TypeId} (hroot : σ.store.Grounded root)
    (hwf : σ.store.WellFormed) {fuel : Nat} :
    ∀ {state : Discovery} {processed : List TypeId}, state.Sound σ root → state.Progress σ →
      processed.Nodup → (∀ node ∈ processed, node ∈ state.discovered ∧ node ∉ state.pending) →
      σ.store.len < fuel + processed.length → ∃ final, σ.discover fuel state = some final := by
  induction fuel with
  | zero =>
    intro state processed hstate _ hnodup hprocessed hfuel
    -- more ids than rows cannot be processed
    exfalso
    have hsub : processed ⊆ range σ.store.len := by
      intro node hnode
      obtain ⟨r, hr⟩ := hroot node (hstate.reaches node (hprocessed node hnode).1)
      exact mem_range.mpr (hwf.lt_of_row hr)
    have hlen := (hnodup.subperm hsub).length_le
    rw [length_range] at hlen
    omega
  | succ fuel ih =>
    intro state processed hstate hdone hnodup hprocessed hfuel
    unfold discover
    split
    · exact ⟨state, rfl⟩
    · rename_i ty pending hpending
      have hty : ty ∈ state.discovered := hstate.pending_mem ty (by simp [hpending])
      obtain ⟨row, hrow⟩ := hroot ty (hstate.reaches ty hty)
      rw [hrow]
      obtain ⟨hsound, hprogress, hle⟩ := discover_round hσ hstate hpending hrow hdone rfl
      have hnodup' := hstate.pending_nodup
      rw [hpending, nodup_cons] at hnodup'
      refine @ih _ (ty :: processed) hsound hprogress ?_ ?_ ?_
      · refine nodup_cons.mpr ⟨fun hmem => (hprocessed ty hmem).2 ?_, hnodup⟩
        simp [hpending]
      · intro node hnode
        have hold : node ∈ state.discovered ∧ node ∉ pending := by
          rcases mem_cons.mp hnode with rfl | hnode
          · exact ⟨hty, hnodup'.1⟩
          · obtain ⟨hdisc, hoff⟩ := hprocessed node hnode
            rw [hpending, mem_cons, not_or] at hoff
            exact ⟨hdisc, hoff.2⟩
        exact ⟨hle.discovered node hold.1, fun h => hold.2 ((hle.pending_iff node hold.1).mp h)⟩
      · simp only [length_cons]
        omega

/-! ## §3 The fixed point -/

theorem monotone_summaryFlow (s : Store) (parent : TypeId) : Monotone (s.summaryFlow parent) := by
  intro v w h
  exact ⟨Finset.filter_subset_filter _ h.1, h.2⟩

/-- A value of the empty summary raises nothing. -/
theorem summaryFlow_bot_le (s : Store) (parent : TypeId) (value : SummaryValue) :
    s.summaryFlow parent (∅, false) ≤ value := by
  refine ⟨?_, Bool.false_le _⟩
  intro p hp
  simp [Store.summaryFlow] at hp

theorem closedAt_of_empty {s : Store} {parents : TypeId → List TypeId}
    {values : TypeId → SummaryValue} {node : TypeId} (h : values node = (∅, false)) :
    Lib.ClosedAt parents s.summaryFlow values node := by
  intro parent _
  rw [h]
  exact summaryFlow_bot_le s parent _

section Close

open Classical in
/-- The exact assignment, over the parameters of the loop. -/
private noncomputable def exactValue (s : Store) (params : Finset TypeParamId) (ty : TypeId) :
    SummaryValue :=
  (params.filter (fun p => s.FreeIn ty p), decide (s.Retains ty))

section Values

variable {s : Store} {params : Finset TypeParamId} {ty : TypeId}

private theorem mem_exactValue {p : TypeParamId} :
    p ∈ (exactValue s params ty).1 ↔ p ∈ params ∧ s.FreeIn ty p := by
  simp [exactValue]

private theorem flag_exactValue :
    (exactValue s params ty).2 = true ↔ s.Retains ty := by
  simp [exactValue]

private theorem le_exactValue {value : SummaryValue} (hvalue : s.SoundValue ty value)
    (hsub : value.1 ⊆ params) :
    value ≤ exactValue s params ty :=
  ⟨fun p hp => mem_exactValue.mpr ⟨hsub hp, hvalue.1 p hp⟩,
    fun hflag => flag_exactValue.mpr (hvalue.2 hflag)⟩

private theorem soundValue_of_le {value : SummaryValue} (h : value ≤ exactValue s params ty) :
    s.SoundValue ty value :=
  ⟨fun _ hp => (mem_exactValue.mp (h.1 hp)).2, fun hflag => flag_exactValue.mp (h.2 hflag)⟩

end Values

variable {state : Discovery}

theorem Discovery.Sound.values_subset {root : TypeId} (hstate : state.Sound σ root) (ty : TypeId) :
    (state.values ty).1 ⊆ state.parameters := by
  intro p hp
  by_cases hty : ty ∈ state.discovered
  · exact Finset.mem_biUnion.mpr ⟨ty, mem_toFinset.mpr hty, hp⟩
  · rw [hstate.values_off ty hty] at hp
    simp at hp

/-- Off the initial stack nothing flows. -/
theorem Discovery.Sound.closedAt {root : TypeId} (hstate : state.Sound σ root) (node : TypeId)
    (hnode : node ∉ state.discovered.filter (fun ty => decide (state.values ty ≠ (∅, false)))) :
    Lib.ClosedAt state.parents σ.store.summaryFlow state.values node := by
  refine closedAt_of_empty ?_
  by_cases hdisc : node ∈ state.discovered
  · simpa [hdisc] using hnode
  · exact hstate.values_off node hdisc

/-- **The closed values are exact** on everything discovered. -/
theorem closeSummaries_exact (hσ : σ.CachedExact) {root : TypeId} (hstate : state.Sound σ root)
    (hdone : ∀ node ∈ state.discovered, state.Done σ node) {values : TypeId → SummaryValue}
    (h : σ.closeSummaries state = some values) :
    (∀ ty, σ.store.SoundValue ty (values ty)) ∧
    (∀ ty ∈ state.discovered, ∀ p, σ.store.FreeIn ty p → p ∈ (values ty).1) ∧
    (∀ ty ∈ state.discovered, σ.store.Retains ty → (values ty).2 = true) := by
  obtain ⟨hup, hclosed⟩ := Lib.propagate_closed h (fun node hnode => hstate.closedAt node hnode)
  -- what a child has, its processed parent has
  have hchild : ∀ ty ∈ state.discovered, ∀ c, σ.store.Edge ty c →
      (∃ summary, σ.cachedSummary c = some summary ∧
        σ.store.summaryFlow ty summary.value ≤ values ty) ∨
      (c ∈ state.discovered ∧ σ.store.summaryFlow ty (values c) ≤ values ty) := by
    rintro ty hty c ⟨r, hr, hc⟩
    obtain ⟨r', hr', _, hcovers⟩ := hdone ty hty
    rw [hr, Option.some.injEq] at hr'
    subst hr'
    rcases hcovers c hc with ⟨summary, hcached, hflow⟩ | ⟨hdisc, hparent⟩
    · exact .inl ⟨summary, hcached, hflow.trans (hup ty)⟩
    · exact .inr ⟨hdisc, hclosed c ty hparent⟩
  refine ⟨fun ty => ?_, fun ty hty p hp => ?_, fun ty hty hretains => ?_⟩
  · refine soundValue_of_le
      (Lib.propagate_le h (monotone_summaryFlow σ.store)
        (fun node => le_exactValue (hstate.values node) (hstate.values_subset node)) ?_ ty)
    intro node parent hparent
    have hedge := (hstate.parents node parent hparent).1
    refine le_exactValue (soundValue_summaryFlow hedge (soundValue_of_le le_rfl)) ?_
    exact fun p hp => (mem_exactValue.mp (Finset.mem_filter.mp hp).1).1
  · induction hp with
    | @own ty p r hr hown =>
      obtain ⟨r', hr', hvalue, _⟩ := hdone ty hty
      rw [hr, Option.some.injEq] at hr'
      subst hr'
      exact (hvalue.trans (hup ty)).1 (mem_toFinset.mpr hown)
    | @child ty c p hedge hfree hbinders ih =>
      rcases hchild ty hty c hedge with ⟨summary, hcached, hflow⟩ | ⟨hdisc, hflow⟩
      · refine hflow.1 (Finset.mem_filter.mpr ⟨mem_toFinset.mpr ?_, hbinders⟩)
        exact ((hσ c summary hcached).1.mem_iff p).mpr hfree
      · exact hflow.1 (Finset.mem_filter.mpr ⟨ih hdisc, hbinders⟩)
  · obtain ⟨node, r, hreach, hr, hflag⟩ := hretains
    induction hreach using Relation.ReflTransGen.head_induction_on with
    | refl =>
      obtain ⟨r', hr', hvalue, _⟩ := hdone node hty
      rw [hr, Option.some.injEq] at hr'
      subst hr'
      exact (hvalue.trans (hup node)).2 hflag
    | @head ty c hedge hreach ih =>
      rcases hchild ty hty c hedge with ⟨summary, hcached, hflow⟩ | ⟨hdisc, hflow⟩
      · refine hflow.2 (beq_iff_eq.mpr ?_)
        exact (hσ c summary hcached).2.fullMap_iff.mpr ⟨node, r, hreach, hr, hflag⟩
      · exact hflow.2 (ih hdisc)

/-- The height of a summary. -/
def SummaryValue.height (value : SummaryValue) : Nat := value.1.card + value.2.toNat

theorem SummaryValue.strictMono_height : StrictMono height := by
  rintro ⟨free, flag⟩ ⟨free', flag'⟩ hlt
  have hcard : free.card ≤ free'.card := Finset.card_le_card hlt.le.1
  have hflag : flag.toNat ≤ flag'.toNat := Bool.toNat_le_toNat hlt.le.2
  show free.card + flag.toNat < free'.card + flag'.toNat
  by_contra hge
  -- equal heights leave no room in either component
  have hfree : free = free' := Finset.eq_of_subset_of_card_le hlt.le.1 (by omega)
  have hflags : flag = flag' := by
    have : flag.toNat = flag'.toNat := by omega
    revert this
    cases flag <;> cases flag' <;> simp
  exact hlt.ne (Prod.ext hfree hflags)

/-- The fixed point is reached within the fuel. -/
theorem closeSummaries_isSome {root : TypeId} (hstate : state.Sound σ root) :
    ∃ values, σ.closeSummaries state = some values := by
  unfold closeSummaries
  refine Lib.propagate_terminates height state.discovered
    (fun _ => (state.parameters, true)) strictMono_height
    (monotone_summaryFlow σ.store) (fun node parent h => (hstate.parents node parent h).2)
    ?_ _ _ _ (fun node => ⟨hstate.values_subset node, Bool.le_true _⟩) ?_
  · intro node parent _
    exact ⟨Finset.filter_subset _ _, le_rfl⟩
  · refine Nat.add_le_add (length_filter_le _ _) ?_
    unfold Lib.remainingHeight
    calc (state.discovered.map (fun node => height (state.parameters, true)
            - height (state.values node))).sum
        ≤ (state.discovered.map (fun _ => state.parameters.card + 1)).sum :=
          sum_le_sum (fun node _ => Nat.sub_le _ _)
      _ = state.discovered.length * (state.parameters.card + 1) := by
          simp

end Close

/-! ## §4 A whole computation -/

theorem exactFree_of_value {s : Store} {ty : TypeId} {value : SummaryValue} (hty : s.Grounded ty)
    (hsound : s.SoundValue ty value) (hcomplete : ∀ p, s.FreeIn ty p → p ∈ value.1) :
    s.ExactFree ty value.summary.freeParams where
  grounded := hty
  mem_iff := by
    intro p
    rw [show value.summary.freeParams = FxHashSet.sorted value.1 from rfl, FxHashSet.mem_sorted]
    exact ⟨hsound.1 p, hcomplete p⟩
  sorted := ((FxHashSet.pairwise_sorted _).and (FxHashSet.nodup_sorted _)).imp
    (fun h => lt_of_le_of_ne h.1 h.2)

theorem exactMode_of_value {s : Store} {ty : TypeId} {value : SummaryValue} (hty : s.Grounded ty)
    (hsound : s.SoundValue ty value) (hcomplete : s.Retains ty → value.2 = true) :
    s.ExactMode ty value.summary.keyMode where
  grounded := hty
  fullMap_iff := by
    have hmode : value.summary.keyMode = .fullMap ↔ value.2 = true := by
      cases hflag : value.2 <;> simp [summary, ApplicationKeyMode.ofFlag, hflag]
    rw [hmode]
    exact ⟨hsound.2, hcomplete⟩

/-- The loop starts with the root pending. -/
def Discovery.start (root : TypeId) : Discovery :=
  { pending := [root], discovered := [root], parents := fun _ => [],
    values := fun _ => (∅, false) }

theorem Discovery.sound_start (root : TypeId) : (start root).Sound σ root where
  root_mem := by simp [start]
  pending_mem := fun _ h => h
  pending_nodup := nodup_singleton _
  discovered_nodup := nodup_singleton _
  reaches := by
    intro ty hty
    rw [mem_singleton.mp hty]
    exact .refl
  parents := fun _ _ h => absurd h not_mem_nil
  values_off := fun _ _ => rfl
  values := fun ty => ⟨fun _ hp => absurd hp (Finset.notMem_empty _), nofun⟩

theorem Discovery.progress_start (root : TypeId) : (start root).Progress σ :=
  fun _ hdisc hoff => absurd hdisc hoff

/-- Everything a finished discovery has seen is grounded. -/
theorem Discovery.grounded_of_done (hσ : σ.CachedExact)
    (hdone : ∀ node ∈ state.discovered, state.Done σ node) {ty : TypeId}
    (hty : ty ∈ state.discovered) : σ.store.Grounded ty := by
  intro node hreach
  induction hreach using Relation.ReflTransGen.head_induction_on with
  | refl =>
    obtain ⟨r, hr, _⟩ := hdone node hty
    exact ⟨r, hr⟩
  | @head ty c hedge hreach ih =>
    obtain ⟨r, hr, hc⟩ := hedge
    obtain ⟨r', hr', _, hcovers⟩ := hdone ty hty
    rw [hr, Option.some.injEq] at hr'
    subst hr'
    rcases hcovers c hc with ⟨summary, hcached, _⟩ | ⟨hdisc, _⟩
    · exact (hσ c summary hcached).1.grounded node hreach
    · exact ih hdisc

/-- The state in which both caches are aligned with the graph. -/
def Interner.alignSummaries (σ : Interner) : Interner :=
  { σ with
    freeParamSummaries := σ.freeParamSummaries.alignWith σ.store.semanticGraphIdentity
    applicationKeyModes := σ.applicationKeyModes.alignWith σ.store.semanticGraphIdentity }

@[simp] theorem FreeParamSummaryCache.alignWith_alignWith (cache : FreeParamSummaryCache)
    (identity : Nat) : (cache.alignWith identity).alignWith identity = cache.alignWith identity := by
  unfold alignWith
  split <;> simp

@[simp] theorem DerivedGraphCache.alignWith_alignWith {K V : Type} (cache : DerivedGraphCache K V)
    (identity : Nat) : (cache.alignWith identity).alignWith identity = cache.alignWith identity := by
  unfold alignWith
  split <;> simp

theorem cachedSummary_alignSummaries (σ : Interner) (ty : TypeId) :
    σ.alignSummaries.cachedSummary ty = σ.cachedSummary ty := by
  simp [cachedSummary, alignSummaries, Interner.freeParamSummary, Interner.applicationKeyMode]

/-- The two lookups in front of a computation leave the aligned interner. -/
theorem aligned_of_lookups (σ : Interner) (root : TypeId) :
    ((σ.freeParamSummary root).2.applicationKeyMode root).2 = σ.alignSummaries := rfl

/-- What a computation publishes: nothing, or summaries of what it discovered. -/
theorem computeApplicationSummaries_exact (hσ : σ.CachedExact) {root : TypeId}
    {summary : ApplicationSummary} {σ' : Interner}
    (h : σ.computeApplicationSummaries root = some (summary, σ')) :
    σ.store.ExactFree root summary.freeParams ∧ σ.store.ExactMode root summary.keyMode ∧
    (σ' = σ.alignSummaries ∨ ∃ summaries modes,
      (∀ entry ∈ summaries, σ.store.ExactFree entry.1 entry.2) ∧
      (∀ entry ∈ modes, σ.store.ExactMode entry.1 entry.2) ∧
      σ' = (σ.alignSummaries.publishFreeParamSummaries summaries).publishApplicationKeyModes
        modes) := by
  unfold Interner.computeApplicationSummaries at h
  dsimp only at h
  rw [aligned_of_lookups] at h
  cases hcached : σ.alignSummaries.cachedSummary root with
  | some cached =>
    rw [hcached] at h
    cases h
    rw [cachedSummary_alignSummaries] at hcached
    obtain ⟨hfree, hmode⟩ := hσ root summary hcached
    exact ⟨hfree, hmode, .inl rfl⟩
  | none =>
    rw [hcached] at h
    simp only [Option.bind_eq_bind, Option.bind_eq_some_iff, Option.some.injEq, Prod.mk.injEq] at h
    obtain ⟨state, hdiscover, values, hvalues, rfl, rfl⟩ := h
    -- the aligned interner has the same graph and the same cached summaries
    have hσ' : σ.alignSummaries.CachedExact := by
      intro ty cached hcached
      rw [cachedSummary_alignSummaries] at hcached
      exact hσ ty cached hcached
    obtain ⟨hsound, hdone⟩ := discover_spec hσ' hdiscover (sound_start root)
      (progress_start root)
    obtain ⟨hexact, hfree, hmode⟩ := closeSummaries_exact hσ' hsound hdone hvalues
    have hfreeAt : ∀ ty ∈ state.discovered,
        σ.store.ExactFree ty (summary (values ty)).freeParams :=
      fun ty hty => exactFree_of_value (grounded_of_done hσ' hdone hty) (hexact ty)
        (hfree ty hty)
    have hmodeAt : ∀ ty ∈ state.discovered,
        σ.store.ExactMode ty (summary (values ty)).keyMode :=
      fun ty hty => exactMode_of_value (grounded_of_done hσ' hdone hty) (hexact ty)
        (hmode ty hty)
    refine ⟨hfreeAt root hsound.root_mem, hmodeAt root hsound.root_mem,
      .inr ⟨_, _, ?_, ?_, rfl⟩⟩
    · intro entry hentry
      obtain ⟨ty, hty, rfl⟩ := mem_map.mp hentry
      exact hfreeAt ty hty
    · intro entry hentry
      obtain ⟨ty, hty, rfl⟩ := mem_map.mp hentry
      exact hmodeAt ty hty

/-- **A grounded root gets a summary.** -/
theorem computeApplicationSummaries_isSome (hσ : σ.CachedExact) (hwf : σ.store.WellFormed)
    {root : TypeId} (hroot : σ.store.Grounded root) :
    ∃ result, σ.computeApplicationSummaries root = some result := by
  unfold Interner.computeApplicationSummaries
  dsimp only
  rw [aligned_of_lookups]
  cases hcached : σ.alignSummaries.cachedSummary root with
  | some cached => exact ⟨_, rfl⟩
  | none =>
    have hσ' : σ.alignSummaries.CachedExact := by
      intro ty cached hcached
      rw [cachedSummary_alignSummaries] at hcached
      exact hσ ty cached hcached
    obtain ⟨state, hdiscover⟩ : ∃ state,
        σ.alignSummaries.discover (σ.store.len + 1) (start root) = some state :=
      discover_isSome hσ' hroot hwf (sound_start root) (progress_start root)
        nodup_nil (fun _ h => absurd h not_mem_nil) (Nat.lt_succ_self σ.store.len)
    obtain ⟨hsound, _⟩ := discover_spec hσ' hdiscover (sound_start root)
      (progress_start root)
    obtain ⟨values, hvalues⟩ := closeSummaries_isSome hsound
    change ∃ result, (σ.alignSummaries.discover (σ.store.len + 1)
      (start root)).bind _ = some result
    rw [hdiscover, Option.bind_some, hvalues]
    exact ⟨_, rfl⟩

end Discovery

end Typokat.Types
