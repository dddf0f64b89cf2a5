import Typokat.Lib.Threaded
import Typokat.Types.Walk

/-!
# When a Visit May Be Reused

A memoized result was computed under one stack of live ids and one set of blocked
binders, and is asked for under others.  The blocked set only matters through the mapped
parameters that are free below the id.  The stack only matters through the live ids that
were re-entered and the tainted frames that were opened: a clean frame cannot meet a live
id under any stack, because the graph below it is well founded along each live parameter
while every live id reaches the current one along all of them.

## Main Results

- `acc_of_clean` : below a clean visit every live parameter is well founded
- `Stack` : live ids reach the current id along every live parameter
- `Walks.transfer` : a visit may be reused where its record fits the stack
-/

namespace Typokat.Types

open Interner Finset Visit

variable {structuralHash : StructuralKey → Nat} {regular : Prop}

/-! ## §1 Records -/

namespace Visit

variable {ty result : TypeId} {canReenter : Bool} {children : List Visit}

theorem mem_foldr_union {f : Visit → FxHashSet TypeId} {a : TypeId} :
    a ∈ children.foldr (fun visit acc => f visit ∪ acc) ∅ ↔ ∃ visit ∈ children, a ∈ f visit := by
  induction children with
  | nil => simp
  | cons visit rest ih => simp [ih]

@[simp] theorem result_close : (close ty canReenter children result).result = result := by
  unfold close
  split <;> rfl

@[simp] theorem tainted_close :
    (close ty canReenter children result).tainted = children.any tainted := by
  unfold close
  split
  · rename_i h
    rw [h]
  · rename_i h
    simpa [clean] using h

theorem mem_reentered_close {a : TypeId} :
    a ∈ (close ty canReenter children result).reentered ↔
      children.any tainted = true ∧ a ≠ ty ∧ ∃ visit ∈ children, a ∈ visit.reentered := by
  unfold close
  split
  · rename_i h
    simp [h, mem_foldr_union]
  · rename_i h
    simp [h, clean]

theorem mem_visited_close {a : TypeId} :
    a ∈ (close ty canReenter children result).visited ↔ children.any tainted = true ∧
      ((∃ visit ∈ children, a ∈ visit.visited) ∨ (canReenter = true ∧ a = ty)) := by
  unfold close
  split
  · rename_i h
    cases canReenter <;> simp [h, mem_foldr_union, or_comm]
  · rename_i h
    simp [h, clean]

end Visit

section Lists

variable {A B : Type} {R R' : A → B → Prop} {xs : List A} {ys : List B}

theorem forall₂_imp_of_mem (h : List.Forall₂ R xs ys)
    (himp : ∀ x y, x ∈ xs → y ∈ ys → R x y → R' x y) : List.Forall₂ R' xs ys := by
  induction h with
  | nil => exact .nil
  | cons hR _ ih =>
    refine .cons (himp _ _ (by simp) (by simp) hR) (ih (fun x y hx hy => ?_))
    exact himp x y (List.mem_cons_of_mem _ hx) (List.mem_cons_of_mem _ hy)

end Lists

/-! ## §2 Facts about every walk -/

section Facts

variable {σ τ : Interner} {map : FxHashMap TypeParamId TypeId} {ip : FxHashSet TypeId}
  {blocked : FxHashSet TypeParamId} {ty : TypeId} {visit : Visit} {n m : Nat}

theorem Walks.extends (hσ : σ.Consed structuralHash regular) (hτ : τ.Consed structuralHash regular)
    (hext : Extends σ τ) (hty : σ.store.Grounded ty)
    (h : Walks structuralHash σ n map ip blocked ty visit) :
    Walks structuralHash τ n map ip blocked ty visit :=
  walks_of_walk hτ hσ (walk_of_walks hσ hty h) hext

/-- A walk re-enters live ids only, opens frames for other ids only, and records nothing
    when it is clean. -/
theorem Walks.record (h : Walks structuralHash σ n map ip blocked ty visit) :
    visit.reentered ⊆ ip ∧ Disjoint visit.visited ip ∧
      (visit.tainted = false → visit.reentered = ∅ ∧ visit.visited = ∅) := by
  induction n generalizing map ip blocked ty visit with
  | zero => exact h.elim
  | succ n ih =>
    have hclean : ∀ result : TypeId, (clean result).reentered ⊆ ip ∧
        Disjoint (clean result).visited ip ∧ ((clean result).tainted = false →
          (clean result).reentered = ∅ ∧ (clean result).visited = ∅) :=
      fun result => ⟨empty_subset _, disjoint_empty_left _, fun _ => ⟨rfl, rfl⟩⟩
    -- a closed frame is clean, or its record is that of its children without itself
    have hclose : ∀ (canReenter : Bool) (visits : List Visit) (result : TypeId)
        (ip' : FxHashSet TypeId), ty ∉ ip → (∀ a ∈ ip', a = ty ∨ a ∈ ip) → ip ⊆ ip' →
        (∀ v ∈ visits, v.reentered ⊆ ip' ∧ Disjoint v.visited ip') →
        (close ty canReenter visits result).reentered ⊆ ip ∧
        Disjoint (close ty canReenter visits result).visited ip ∧
        ((close ty canReenter visits result).tainted = false →
          (close ty canReenter visits result).reentered = ∅ ∧
          (close ty canReenter visits result).visited = ∅) := by
      intro canReenter visits result ip' hip hsub hsup hvisits
      refine ⟨fun a ha => ?_, disjoint_left.mpr (fun a ha hmem => ?_), fun htaint => ?_⟩
      · obtain ⟨_, hne, v, hv, ha⟩ := mem_reentered_close.mp ha
        exact (hsub a ((hvisits v hv).1 ha)).resolve_left hne
      · rcases (mem_visited_close.mp ha).2 with ⟨v, hv, ha⟩ | ⟨_, rfl⟩
        · exact disjoint_left.mp (hvisits v hv).2 ha (hsup hmem)
        · exact hip hmem
      · rw [tainted_close] at htaint
        rw [close, if_neg (by rw [htaint]; exact Bool.false_ne_true)]
        exact ⟨rfl, rfl⟩
    cases h with
    | empty => exact hclean _
    | inert => exact hclean _
    | cut _ hip =>
      exact ⟨singleton_subset_iff.mpr hip, disjoint_empty_left _, nofun⟩
    | done => exact hclean _
    | defer => exact hclean _
    | distribute _ hip _ _ _ _ =>
      refine hclose _ _ _ ip hip (fun a ha => .inr ha) subset_rfl (fun v hv => ?_)
      obtain ⟨w, _, rfl⟩ := List.mem_map.mp hv
      exact ⟨empty_subset _, disjoint_empty_left _⟩
    | @rewrite _ _ _ _ row arm visits result _ hip _ _ hchildren _ =>
      refine hclose _ _ _ (arm.enter ty ip) hip ?_ ?_ (fun v hv => ?_)
      · intro a ha
        unfold Arm.enter at ha
        split at ha
        · exact mem_insert.mp ha
        · exact .inr ha
      · unfold Arm.enter
        split
        · exact subset_insert _ _
        · exact subset_rfl
      · obtain ⟨child, _, hc⟩ := Lib.exists_left_of_forall₂ hchildren hv
        exact ⟨(ih hc).1, (ih hc).2.1⟩

end Facts

/-! ## §3 Contexts -/

section Context

variable {σ : Interner} {map : FxHashMap TypeParamId TypeId}
  {blocked blocked' : FxHashSet TypeParamId} {ty : TypeId} {row : Row} {arm : Arm}

/-- The two sets block the same mapped parameters among those free below `ty`. -/
def SameContext (σ : Interner) (map : FxHashMap TypeParamId TypeId) (ty : TypeId)
    (blocked blocked' : FxHashSet TypeParamId) : Prop :=
  ∀ q ∈ map, σ.store.FreeIn ty q → (q ∈ blocked ↔ q ∈ blocked')

theorem live_congr (h : SameContext σ map ty blocked blocked') :
    Live σ map blocked ty ↔ Live σ map blocked' ty := by
  unfold Live
  constructor
  · rintro ⟨q, hq, hblocked, hfree⟩
    exact ⟨q, hq, fun hmem => hblocked ((h q hq hfree).mpr hmem), hfree⟩
  · rintro ⟨q, hq, hblocked, hfree⟩
    exact ⟨q, hq, fun hmem => hblocked ((h q hq hfree).mp hmem), hfree⟩

/-- An argument that the blocked set lets through depends on the context only. -/
theorem added_congr (h : SameContext σ map ty blocked blocked') {p : TypeParamId}
    (hfree : p ∈ map → σ.store.FreeIn ty p) :
    (if p ∈ blocked then none else map.lookup p) = if p ∈ blocked' then none else map.lookup p := by
  by_cases hp : p ∈ map
  · simp only [h p hp (hfree hp)]
  · simp [Finmap.lookup_eq_none.mpr hp]

section Arms

variable (hrow : σ.store.row ty = some row)
include hrow

/-- **What a row asks for depends on the context only.** -/
theorem dispatch_congr (h : SameContext σ map ty blocked blocked') :
    dispatch structuralHash map blocked σ ty row = dispatch structuralHash map blocked' σ ty row := by
  cases row <;> try rfl
  case typeParam param =>
    have hadded := added_congr (p := param.id) h (fun _ => .own hrow (by simp [Store.ownParameters]))
    have hget : ∀ b : FxHashSet TypeParamId, (if param.id ∈ b then ty
        else (map.lookup param.id).getD ty)
          = (if param.id ∈ b then none else map.lookup param.id).getD ty := by
      intro b
      split <;> rfl
    simp only [dispatch, hget, hadded]
  case declared body =>
    simp only [dispatch]
    cases hrecipe : σ.store.declaredRecipe body.recipe with
    | none => rfl
    | some recipe =>
      -- the added entries are arguments of parameters that occur at the row itself
      have hadded : recipe.freeParams.filterMap (fun p =>
          if p ∈ body.mapper.map (fun e => e.1) ∨ p ∈ blocked then none
          else (map.lookup p).map (fun value => (p, value)))
        = recipe.freeParams.filterMap (fun p =>
          if p ∈ body.mapper.map (fun e => e.1) ∨ p ∈ blocked' then none
          else (map.lookup p).map (fun value => (p, value))) := by
        refine List.filterMap_congr (fun p hp => ?_)
        by_cases hkey : p ∈ body.mapper.map (fun e => e.1)
        · simp [hkey]
        · have hp' := added_congr (p := p) h (fun _ => .own hrow (by
            simp only [Store.ownParameters, hrecipe]
            exact List.mem_filter.mpr ⟨hp, decide_eq_true hkey⟩))
          have hmap : ∀ b : FxHashSet TypeParamId, (if p ∈ b then none
              else (map.lookup p).map (fun value => (p, value)))
                = (if p ∈ b then none else map.lookup p).map (fun value => (p, value)) := by
            intro b
            split <;> rfl
          simp only [hkey, false_or, hmap, hp']
      simp only [Option.bind_eq_bind, Option.bind_some, applyDeclared, hadded]

theorem nodeBinders_of_row :
    σ.store.nodeBinders ty = row.binders := by
  rw [Store.nodeBinders, hrow]
  rfl

/-- A parameter that is free below a child and not bound is free below the parent. -/
theorem freeIn_of_child (hask : dispatch structuralHash map blocked σ ty row = some (.rewrite arm))
    {child : TypeId} (hc : child ∈ arm.children) {q : TypeParamId} (hq : σ.store.FreeIn child q)
    (hbinders : q ∉ arm.binders) : σ.store.FreeIn ty q := by
  obtain ⟨hchildren, harm, _⟩ := dispatch_rewrite hask
  refine .child ⟨row, hrow, hchildren child hc⟩ hq ?_
  rw [nodeBinders_of_row hrow, ← harm]
  exact hbinders

/-- The contexts below an arm agree. -/
theorem SameContext.child
    (hask : dispatch structuralHash map blocked σ ty row = some (.rewrite arm))
    (h : SameContext σ map ty blocked blocked') {child : TypeId} (hc : child ∈ arm.children) :
    SameContext σ map child (blocked ∪ arm.binders.toFinset)
      (blocked' ∪ arm.binders.toFinset) := by
  intro q hq hfree
  simp only [mem_union, List.mem_toFinset]
  by_cases hbinders : q ∈ arm.binders
  · simp [hbinders]
  · simp [hbinders, h q hq (freeIn_of_child hrow hask hc hfree hbinders)]

end Arms

end Context

/-! ## §4 Well-foundedness below a clean visit -/

section Clean

variable {σ : Interner} {map : FxHashMap TypeParamId TypeId} {ip : FxHashSet TypeId}
  {blocked : FxHashSet TypeParamId} {ty : TypeId} {visit : Visit} {n : Nat}

/-- A walk on which `q` is live goes from the parent to the child. -/
def Follows (structuralHash : StructuralKey → Nat) (σ : Interner)
    (map : FxHashMap TypeParamId TypeId) (q : TypeParamId) (parent child : TypeId) : Prop :=
  ∃ row arm blocked, σ.store.row parent = some row ∧
    dispatch structuralHash map blocked σ parent row = some (.rewrite arm) ∧
    child ∈ arm.children ∧ q ∉ arm.binders ∧ σ.store.FreeIn child q

/-- The blocked set decides neither whether a row rewrites nor what it follows. -/
theorem dispatch_shape {row : Row} {blocked blocked' : FxHashSet TypeParamId} {arm : Arm}
    {asked : Dispatch} (h : dispatch structuralHash map blocked σ ty row = some (.rewrite arm))
    (h' : dispatch structuralHash map blocked' σ ty row = some asked) :
    ∃ arm', asked = .rewrite arm' ∧ arm'.children = arm.children ∧ arm'.binders = arm.binders := by
  cases row <;> try (
    have heq := h.symm.trans h'
    cases heq
    exact ⟨_, rfl, rfl, rfl⟩)
  case typeParam param => cases h
  case declared body =>
    obtain ⟨recipe, hrecipe, h⟩ := Option.bind_eq_some_iff.mp h
    obtain ⟨recipe', hrecipe', h'⟩ := Option.bind_eq_some_iff.mp h'
    rw [hrecipe, Option.some.injEq] at hrecipe'
    subst hrecipe'
    cases h
    cases h'
    exact ⟨_, rfl, rfl, rfl⟩

/-- **Below a clean visit every live parameter is well founded.** -/
theorem acc_of_clean (h : Walks structuralHash σ n map ip blocked ty visit)
    (hclean : visit.tainted = false) {q : TypeParamId} (hq : q ∈ map) (hblocked : q ∉ blocked)
    (hfree : σ.store.FreeIn ty q) :
    Acc (fun child parent => Follows structuralHash σ map q parent child) ty := by
  induction n generalizing ip blocked ty visit with
  | zero => exact h.elim
  | succ n ih =>
    refine ⟨ty, fun child hfollows => ?_⟩
    obtain ⟨row', arm', blocked₀, hrow', hask', hc, hbinders, hfree'⟩ := hfollows
    -- only a frame that rewrites is left by a followed edge
    have hstuck : ∀ {row : Row} {asked : Dispatch}, σ.store.row ty = some row →
        dispatch structuralHash map blocked σ ty row = some asked →
        ∃ arm, asked = .rewrite arm ∧ child ∈ arm.children ∧ q ∉ arm.binders := by
      intro row asked hrow hask
      rw [hrow, Option.some.injEq] at hrow'
      subst hrow'
      obtain ⟨arm, harm, hchildren, hbind⟩ := dispatch_shape hask' hask
      exact ⟨arm, harm, hchildren ▸ hc, hbind ▸ hbinders⟩
    cases h with
    | empty hmap =>
      subst hmap
      exact absurd hq Finmap.notMem_empty
    | inert _ hdead => exact absurd ⟨q, hq, hblocked, hfree⟩ hdead
    | cut => cases hclean
    | done _ _ hrow hask =>
      obtain ⟨_, harm, _⟩ := hstuck hrow hask
      cases harm
    | defer _ _ hrow hask _ =>
      obtain ⟨_, harm, _⟩ := hstuck hrow hask
      cases harm
    | distribute _ _ hrow hask _ _ =>
      obtain ⟨_, harm, _⟩ := hstuck hrow hask
      cases harm
    | @rewrite _ _ _ _ row arm visits result _ _ hrow hask hchildren _ =>
      obtain ⟨_, harm, hmem, hbind⟩ := hstuck hrow hask
      cases harm
      obtain ⟨childVisit, hv, hwalk⟩ := Lib.exists_right_of_forall₂ hchildren hmem
      rw [tainted_close] at hclean
      refine ih hwalk ?_ ?_ hfree'
      · simpa using List.any_eq_false.mp hclean childVisit hv
      · simp [hblocked, hbind]

theorem not_cycle_of_acc {α : Type} {r : α → α → Prop} {a : α}
    (h : Acc (fun child parent => r parent child) a) : ¬Relation.TransGen r a a := by
  induction h with
  | intro a _ ih =>
    intro hcycle
    obtain ⟨b, hab, hba⟩ := Relation.TransGen.head'_iff.mp hcycle
    exact ih b hab (Relation.TransGen.tail' hba hab)

end Clean

/-! ## §5 Reuse -/

section Reuse

variable {σ : Interner} {map : FxHashMap TypeParamId TypeId} {ip ip' : FxHashSet TypeId}
  {blocked blocked' : FxHashSet TypeParamId} {ty : TypeId} {visit : Visit} {n : Nat}

/-- Live ids can re-enter, and reach the current id along every live parameter. -/
structure Stack (structuralHash : StructuralKey → Nat) (σ : Interner)
    (map : FxHashMap TypeParamId TypeId) (ip : FxHashSet TypeId)
    (blocked : FxHashSet TypeParamId) (ty : TypeId) : Prop where
  canReenter : ∀ a ∈ ip, ∃ row, σ.store.row a = some row ∧ row.canReenter = true
  reaches : ∀ a ∈ ip, ∀ q ∈ map, q ∉ blocked → σ.store.FreeIn ty q →
    Relation.TransGen (Follows structuralHash σ map q) a ty

theorem stack_empty : Stack structuralHash σ map ∅ blocked ty :=
  ⟨fun _ h => absurd h (notMem_empty _), fun _ h => absurd h (notMem_empty _)⟩

/-- The stack below an arm. -/
theorem Stack.child {row : Row} {arm : Arm} (h : Stack structuralHash σ map ip blocked ty)
    (hrow : σ.store.row ty = some row)
    (hask : dispatch structuralHash map blocked σ ty row = some (.rewrite arm)) {child : TypeId}
    (hc : child ∈ arm.children) :
    Stack structuralHash σ map (arm.enter ty ip) (blocked ∪ arm.binders.toFinset) child := by
  have hedge : ∀ q, q ∉ blocked ∪ arm.binders.toFinset → σ.store.FreeIn child q →
      q ∉ blocked ∧ σ.store.FreeIn ty q ∧ Follows structuralHash σ map q ty child := by
    intro q hq hfree
    simp only [mem_union, List.mem_toFinset, not_or] at hq
    exact ⟨hq.1, freeIn_of_child hrow hask hc hfree hq.2,
      row, arm, blocked, hrow, hask, hc, hq.2, hfree⟩
  have hmem : ∀ a ∈ arm.enter ty ip, a ∈ ip ∨ (a = ty ∧ arm.tracked = true) := by
    intro a ha
    unfold Arm.enter at ha
    split at ha
    · rename_i htracked
      rcases mem_insert.mp ha with rfl | ha
      · exact .inr ⟨rfl, htracked⟩
      · exact .inl ha
    · exact .inl ha
  refine ⟨fun a ha => ?_, fun a ha q hq hblocked hfree => ?_⟩
  · rcases hmem a ha with ha | ⟨rfl, htracked⟩
    · exact h.canReenter a ha
    · exact ⟨row, hrow, by rw [← (dispatch_rewrite hask).2.2, htracked]⟩
  · obtain ⟨hq', hfree', hfollows⟩ := hedge q hblocked hfree
    rcases hmem a ha with ha | ⟨rfl, _⟩
    · exact (h.reaches a ha q hq hq' hfree').tail hfollows
    · exact .single hfollows

/-- **A visit may be reused** wherever the context is the same, the ids it re-entered are
    still live, and no frame it opened while tainted is. -/
theorem Walks.transfer (h : Walks structuralHash σ n map ip blocked ty visit)
    (hcontext : SameContext σ map ty blocked blocked')
    (hstack : Stack structuralHash σ map ip' blocked' ty) (hreentered : visit.reentered ⊆ ip')
    (hvisited : Disjoint visit.visited ip') :
    Walks structuralHash σ n map ip' blocked' ty visit := by
  induction n generalizing ip blocked ip' blocked' ty visit with
  | zero => exact h.elim
  | succ n ih =>
    have hwalk := h
    have hlive' := live_congr hcontext
    -- a frame opens again: a clean one is on no cycle, a tainted one is on record
    have hfree : ∀ {row : Row}, Live σ map blocked ty → σ.store.row ty = some row →
        (visit.tainted = true → row.canReenter = true → ty ∈ visit.visited) → ty ∉ ip' := by
      intro row hlive hrow hrecord hmem
      obtain ⟨row', hrow', hcan⟩ := hstack.canReenter ty hmem
      rw [hrow, Option.some.injEq] at hrow'
      subst hrow'
      cases htaint : visit.tainted with
      | true => exact disjoint_left.mp hvisited (hrecord htaint hcan) hmem
      | false =>
        obtain ⟨q, hq, hblocked, hq'⟩ := hlive
        have hacc := acc_of_clean hwalk htaint hq hblocked hq'
        refine not_cycle_of_acc hacc (hstack.reaches ty hmem q hq ?_ hq')
        exact fun hb => hblocked ((hcontext q hq hq').mpr hb)
    cases h with
    | empty hmap => exact WalkStep.empty hmap
    | inert hmap hdead => exact WalkStep.inert hmap (fun hl => hdead (hlive'.mpr hl))
    | cut hlive hip =>
      exact WalkStep.cut (hlive'.mp hlive) (hreentered (mem_singleton_self _))
    | done hlive hip hrow hask =>
      exact WalkStep.done (hlive'.mp hlive) (hfree hlive hrow nofun) hrow
        (dispatch_congr hrow hcontext ▸ hask)
    | defer hlive hip hrow hask hmade =>
      exact WalkStep.defer (hlive'.mp hlive) (hfree hlive hrow nofun) hrow
        (dispatch_congr hrow hcontext ▸ hask) hmade
    | @distribute _ _ _ _ row param members visits result hlive hip hrow hask hmembers hunion =>
      refine WalkStep.distribute (hlive'.mp hlive) (hfree hlive hrow ?_) hrow
        (dispatch_congr hrow hcontext ▸ hask) hmembers hunion
      intro htaint hcan
      rw [tainted_close] at htaint
      exact mem_visited_close.mpr ⟨htaint, .inr ⟨hcan, rfl⟩⟩
    | @rewrite _ _ _ _ row arm visits result hlive hip hrow hask hchildren hfinish =>
      have hask' : dispatch structuralHash map blocked' σ ty row = some (.rewrite arm) :=
        dispatch_congr hrow hcontext ▸ hask
      refine WalkStep.rewrite (hlive'.mp hlive) (hfree hlive hrow ?_) hrow hask' ?_ hfinish
      · intro htaint hcan
        rw [tainted_close] at htaint
        exact mem_visited_close.mpr ⟨htaint, .inr ⟨hcan, rfl⟩⟩
      · refine forall₂_imp_of_mem hchildren (fun child childVisit hc hv hbelow => ?_)
        obtain ⟨hsub, hdisjoint, hcleanRecord⟩ := hbelow.record
        refine ih hbelow (hcontext.child hrow hask hc) (hstack.child hrow hask' hc) ?_ ?_
        · -- what the child re-entered is the frame itself or on the frame's record
          intro a ha
          have htaint : childVisit.tainted = true := by
            by_contra hclean
            rw [(hcleanRecord (by simpa using hclean)).1] at ha
            exact notMem_empty a ha
          by_cases heq : a = ty
          · subst heq
            have htracked := hsub ha
            unfold Arm.enter at htracked ⊢
            split at htracked
            · rename_i h
              rw [if_pos h]
              exact mem_insert_self _ _
            · exact absurd htracked hip
          · have hrecord : a ∈ (close ty row.canReenter visits result).reentered :=
              mem_reentered_close.mpr
                ⟨List.any_eq_true.mpr ⟨childVisit, hv, htaint⟩, heq, childVisit, hv, ha⟩
            unfold Arm.enter
            split
            · exact mem_insert_of_mem (hreentered hrecord)
            · exact hreentered hrecord
        · refine disjoint_left.mpr (fun a ha hmem => ?_)
          have htaint : childVisit.tainted = true := by
            by_contra hclean
            rw [(hcleanRecord (by simpa using hclean)).2] at ha
            exact notMem_empty a ha
          have hrecord : a ∈ (close ty row.canReenter visits result).visited :=
            mem_visited_close.mpr
              ⟨List.any_eq_true.mpr ⟨childVisit, hv, htaint⟩, .inl ⟨childVisit, hv, ha⟩⟩
          have hne : a ∉ ip' := disjoint_left.mp hvisited hrecord
          unfold Arm.enter at hmem hdisjoint
          split at hmem
          · rename_i htracked
            rw [if_pos htracked] at hdisjoint
            rcases mem_insert.mp hmem with rfl | hmem
            · exact disjoint_left.mp hdisjoint ha (mem_insert_self _ _)
            · exact hne hmem
          · exact hne hmem

end Reuse

end Typokat.Types
