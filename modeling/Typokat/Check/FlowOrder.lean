import Mathlib.Logic.Relation
import Typokat.Check.FlowGrowth

/-!
# Flow Answers and the Order of the Calls

A call for a node finds types that earlier calls have memoized, and while a label is in
flight it computes types from the provisional type of the label.  An answer depends on the
calls before it when a node inside a loop in flight was memoized before the loop: the memo
has its final type, a fresh computation one made from a placeholder.

`Val` is the type of a node computed without any memo, from the types held for the labels in
flight.  Where no two loop labels depend on each other, a node that has been memoized does
not depend on a label in flight, and every answer is the one computed without memo.

## Main Results

- `Val.det`, `Val.congr` : the type without memo is unique, and depends on what the node depends on
- `not_dependsOn_inFlight` : memoized nodes do not depend on labels in flight
- `orderRules` : every type the walk computes is the type without memo
- `answers_independent_of_order` : any two sequences of calls agree
-/

namespace Typokat.Check

open FlowType FlowTable Option List Function

namespace FlowGraph

variable (graph : FlowGraph)

/-! ## §1 Types without a memo -/

/-- The node is a loop label. -/
def IsLabel (node : FlowNodeId) : Prop :=
  ∃ pre back, graph.nodes[node]? = some (.loopLabel pre back)

/-- The nodes whose types enter the type of a node: the walk stops at an assignment to the
symbol. -/
def sources (symbol : SymbolId) (node : FlowNodeId) : List FlowNodeId :=
  match graph.nodes[node]? with
  | some (.loopLabel pre back) => pre ++ back
  | _ => graph.needed symbol node

/-- The type of a node may depend on the type of another one. -/
def DependsOn (symbol : SymbolId) : FlowNodeId → FlowNodeId → Prop :=
  Relation.ReflTransGen (fun node source => source ∈ graph.sources symbol node)

/-- No two loop labels depend on each other. -/
def Separate (symbol : SymbolId) : Prop :=
  ∀ label label', graph.IsLabel label → graph.IsLabel label' → label ≠ label' →
    graph.DependsOn symbol label label' → ¬graph.DependsOn symbol label' label

/-- The type of a node that is no loop label, from the types of the nodes it needs. -/
def compute (symbol : SymbolId) (node : FlowNodeId) (known : FlowNodeId → FlowType) : FlowType :=
  match graph.nodes[node]? with
  | some (.assignment target assigned antecedent) =>
    if target = symbol then assigned.getD (graph.declared symbol) else known antecedent
  | some (.condition guarded op positive antecedent) =>
    if guarded = symbol then graph.narrowBy op positive (known antecedent) else known antecedent
  | some (.branchLabel antecedents) => FlowType.unionAll (antecedents.map known)
  | _ => .error

/-- **The type of a node without a memo**, from types held for labels in flight. -/
inductive Val (symbol : SymbolId) : (FlowNodeId → Option FlowType) → FlowNodeId → FlowType → Prop
  | sentinel {held : FlowNodeId → Option FlowType} {node : FlowNodeId}
      (hsentinel : node = .start ∨ node = .unreachable) :
      Val symbol held node (graph.declared symbol)
  | held {held : FlowNodeId → Option FlowType} {node : FlowNodeId} {ty : FlowType}
      (hsentinel : ¬(node = .start ∨ node = .unreachable)) (hheld : held node = some ty) :
      Val symbol held node ty
  | step {held : FlowNodeId → Option FlowType} {node : FlowNodeId} {known : FlowNodeId → FlowType}
      (hsentinel : ¬(node = .start ∨ node = .unreachable)) (hheld : held node = none)
      (hlabel : ¬graph.IsLabel node)
      (hknown : ∀ a ∈ graph.needed symbol node, Val symbol held a (known a)) :
      Val symbol held node (graph.compute symbol node known)
  | loop {held : FlowNodeId → Option FlowType} {node : FlowNodeId} {pre back : List FlowNodeId}
      {known known' : FlowNodeId → FlowType}
      (hsentinel : ¬(node = .start ∨ node = .unreachable)) (hheld : held node = none)
      (hnode : graph.nodes[node]? = some (.loopLabel pre back))
      (hpre : ∀ a ∈ pre,
        Val symbol (Function.update held node (some (graph.declared symbol))) a (known a))
      (hback : ∀ a ∈ back,
        Val symbol (Function.update held node (some (FlowType.unionAll (pre.map known)))) a
          (known' a)) :
      Val symbol held node
        (FlowType.unionAll (FlowType.unionAll (pre.map known) :: back.map known'))

variable {graph} {symbol : SymbolId} {held held' : FlowNodeId → Option FlowType}
  {node : FlowNodeId} {ty ty' : FlowType}

theorem compute_congr {known known' : FlowNodeId → FlowType}
    (h : ∀ a ∈ graph.needed symbol node, known a = known' a) :
    graph.compute symbol node known = graph.compute symbol node known' := by
  unfold needed at h
  unfold compute
  cases hrow : graph.nodes[node]? with
  | none => rfl
  | some row =>
    simp only [hrow] at h
    cases row with
    | assignment target assigned antecedent =>
      by_cases htarget : target = symbol
      · simp only [if_pos htarget]
      · simp only [if_neg htarget, mem_singleton, forall_eq] at h ⊢
        exact h
    | condition guarded op positive antecedent =>
      simp only [mem_singleton, forall_eq] at h
      simp only [h]
    | branchLabel antecedents => simp only [map_congr_left h]
    | unreachable => rfl
    | start => rfl
    | loopLabel pre back => rfl

/-- **The type without a memo is unique.** -/
theorem Val.det (h : graph.Val symbol held node ty) (h' : graph.Val symbol held node ty') :
    ty = ty' := by
  induction h generalizing ty' with
  | sentinel hsentinel =>
    cases h' with
    | sentinel _ => rfl
    | held hn _ | step hn _ _ _ | loop hn _ _ _ _ => exact absurd hsentinel hn
  | held hsentinel hheld =>
    cases h' with
    | sentinel hn => exact absurd hn hsentinel
    | held _ hheld' => exact some.inj (hheld.symm.trans hheld')
    | step _ hnone _ _ => rw [hheld] at hnone; cases hnone
    | loop _ hnone _ _ _ => rw [hheld] at hnone; cases hnone
  | step hsentinel hheld hlabel hknown ih =>
    cases h' with
    | sentinel hn => exact absurd hn hsentinel
    | held _ hheld' => rw [hheld] at hheld'; cases hheld'
    | step _ _ _ hknown' => exact compute_congr (fun a ha => ih a ha (hknown' a ha))
    | loop _ _ hnode _ _ => exact absurd ⟨_, _, hnode⟩ hlabel
  | @loop held node pre back known known' hsentinel hheld hnode hpre hback ihpre ihback =>
    cases h' with
    | sentinel hn => exact absurd hn hsentinel
    | held _ hheld' => rw [hheld] at hheld'; cases hheld'
    | step _ _ hlabel _ => exact absurd ⟨_, _, hnode⟩ hlabel
    | @loop _ _ pre' back' knownPre knownBack _ _ hnode' hpre' hback' =>
      rw [hnode, some.injEq, FlowNode.loopLabel.injEq] at hnode'
      obtain ⟨rfl, rfl⟩ := hnode'
      have hseed : pre.map known = pre.map knownPre :=
        map_congr_left (fun a ha => ihpre a ha (hpre' a ha))
      rw [hseed] at ihback ⊢
      rw [map_congr_left (fun a ha => ihback a ha (hback' a ha))]

theorem DependsOn.source {source target : FlowNodeId} (hsource : source ∈ graph.sources symbol node)
    (h : graph.DependsOn symbol source target) : graph.DependsOn symbol node target :=
  .head hsource h

theorem sources_of_not_isLabel (h : ¬graph.IsLabel node) :
    graph.sources symbol node = graph.needed symbol node := by
  unfold sources
  split
  · rename_i pre back hnode
    exact absurd ⟨pre, back, hnode⟩ h
  · rfl

theorem sources_loopLabel {pre back : List FlowNodeId}
    (h : graph.nodes[node]? = some (.loopLabel pre back)) :
    graph.sources symbol node = pre ++ back := by
  simp [sources, h]

/-- **Irrelevance.**  Only the types held for nodes that the node depends on matter. -/
theorem Val.congr (h : graph.Val symbol held node ty)
    (hagree : ∀ target, graph.DependsOn symbol node target → held target = held' target) :
    graph.Val symbol held' node ty := by
  induction h generalizing held' with
  | sentinel hsentinel => exact .sentinel hsentinel
  | held hsentinel hheld => exact .held hsentinel ((hagree _ .refl).symm.trans hheld)
  | step hsentinel hheld hlabel hknown ih =>
    refine .step hsentinel ((hagree _ .refl).symm.trans hheld) hlabel ?_
    intro a ha
    rw [← sources_of_not_isLabel hlabel] at ha
    refine ih a ?_ (fun target htarget => hagree target (htarget.source ha))
    rwa [sources_of_not_isLabel hlabel] at ha
  | @loop held node pre back known known' hsentinel hheld hnode hpre hback ihpre ihback =>
    have hedge : ∀ a ∈ pre ++ back, ∀ seed target, graph.DependsOn symbol a target →
        update held node (some seed) target =
          update held' node (some seed) target := by
      intro a ha seed target htarget
      rw [← sources_loopLabel hnode] at ha
      by_cases heq : target = node
      · rw [heq, update_self, update_self]
      · rw [update_of_ne heq, update_of_ne heq]
        exact hagree target (htarget.source ha)
    exact .loop hsentinel ((hagree _ .refl).symm.trans hheld) hnode
      (fun a ha => ihpre a ha (hedge a (mem_append_left _ ha) _))
      (fun a ha => ihback a ha (hedge a (mem_append_right _ ha) _))

variable {known : FlowNodeId → FlowType → Prop}

/-- Unique types for a list of nodes are the values of a function. -/
theorem exists_known {nodes : List FlowNodeId} {parts : List FlowType}
    (h : List.Forall₂ known nodes parts) (hdet : ∀ a t t', known a t → known a t' → t = t') :
    ∃ f : FlowNodeId → FlowType, (∀ a ∈ nodes, known a (f a)) ∧ parts = nodes.map f := by
  classical
  refine ⟨fun a => if h : ∃ t, known a t then h.choose else .error, ?_⟩
  induction h with
  | nil => simp
  | @cons a t nodes parts hat _ ih =>
    have hex : ∃ t, known a t := ⟨t, hat⟩
    refine ⟨?_, ?_⟩
    · intro n hn
      rcases mem_cons.mp hn with rfl | hn
      · show known n (if h : ∃ t, known n t then h.choose else .error)
        rw [dif_pos hex]
        exact hex.choose_spec
      · exact ih.1 n hn
    · rw [map_cons, dif_pos hex, ← ih.2, hdet a _ _ hat hex.choose_spec]

/-- A computed type is computed from the unique types of the needed nodes. -/
theorem exists_compute (h : graph.Computed symbol known node ty)
    (hdet : ∀ a t t', known a t → known a t' → t = t') :
    ∃ f : FlowNodeId → FlowType, (∀ a ∈ graph.needed symbol node, known a (f a)) ∧
      ty = graph.compute symbol node f := by
  unfold Computed at h
  unfold needed compute
  cases hrow : graph.nodes[node]? with
  | none =>
    simp only [hrow] at h
    exact ⟨fun _ => .error, by simp, h⟩
  | some row =>
    simp only [hrow] at h
    cases row with
    | unreachable => exact ⟨fun _ => .error, by simp, h⟩
    | start => exact ⟨fun _ => .error, by simp, h⟩
    | loopLabel pre back => exact h.elim
    | assignment target assigned antecedent =>
      by_cases htarget : target = symbol
      · simp only [if_pos htarget] at h ⊢
        exact ⟨fun _ => .error, by simp, h⟩
      · simp only [if_neg htarget] at h ⊢
        exact ⟨fun _ => ty, by simpa using h, rfl⟩
    | condition guarded op positive antecedent =>
      obtain ⟨base, hbase, rfl⟩ := h
      exact ⟨fun _ => base, by simpa using hbase, rfl⟩
    | branchLabel antecedents =>
      obtain ⟨parts, hparts, rfl⟩ := h
      obtain ⟨f, hf, rfl⟩ := exists_known hparts hdet
      exact ⟨f, hf, rfl⟩

theorem Computed.imp {known known' : FlowNodeId → FlowType → Prop}
    (h : graph.Computed symbol known node ty)
    (himp : ∀ a ∈ graph.needed symbol node, ∀ t, known a t → known' a t) :
    graph.Computed symbol known' node ty := by
  unfold Computed at h ⊢
  unfold needed at himp
  cases hrow : graph.nodes[node]? with
  | none => simpa only [hrow] using h
  | some row =>
    simp only [hrow] at h himp ⊢
    cases row with
    | assignment target assigned antecedent =>
      by_cases htarget : target = symbol
      · simpa only [if_pos htarget] using h
      · simp only [if_neg htarget] at h himp ⊢
        exact himp antecedent (by simp) ty h
    | condition guarded op positive antecedent =>
      obtain ⟨base, hbase, heq⟩ := h
      exact ⟨base, himp antecedent (by simp) base hbase, heq⟩
    | branchLabel antecedents =>
      obtain ⟨parts, hparts, heq⟩ := h
      refine ⟨parts, ?_, heq⟩
      exact forall₂_iff_get.mpr (by
        obtain ⟨hlength, hget⟩ := forall₂_iff_get.mp hparts
        exact ⟨hlength, fun i h₁ h₂ => himp _ (get_mem _ _) _ (hget i h₁ h₂)⟩)
    | unreachable => exact h
    | start => exact h
    | loopLabel pre back => exact h

/-- Every needed node has a type that was used. -/
theorem Computed.exists_needed (h : graph.Computed symbol known node ty) :
    ∀ a ∈ graph.needed symbol node, ∃ t, known a t := by
  unfold Computed at h
  unfold needed
  cases hrow : graph.nodes[node]? with
  | none => simp
  | some row =>
    simp only [hrow] at h
    cases row with
    | assignment target assigned antecedent =>
      by_cases htarget : target = symbol
      · simp [htarget]
      · simp only [if_neg htarget] at h ⊢
        simpa using ⟨ty, h⟩
    | condition guarded op positive antecedent =>
      obtain ⟨base, hbase, -⟩ := h
      simpa using ⟨base, hbase⟩
    | branchLabel antecedents =>
      obtain ⟨parts, hparts, -⟩ := h
      intro a ha
      obtain ⟨i, hi, rfl⟩ := getElem_of_mem ha
      obtain ⟨hlength, hget⟩ := forall₂_iff_get.mp hparts
      exact ⟨parts[i], hget i hi (hlength ▸ hi)⟩
    | unreachable => simp
    | start => simp
    | loopLabel pre back => simp

/-! ## §2 Memoized nodes and labels in flight -/

/-- The types held for one symbol. -/
def heldTypes (state : FlowState) (symbol : SymbolId) : FlowNodeId → Option FlowType :=
  fun node => state.provisional node symbol

variable (graph) in
/-- The invariant of the tables.  A memoized type is the one without memo; with a node the
nodes it needs are memoized; labels in flight are not memoized; and no label is in flight
outside a fixpoint. -/
structure OrderInv (state : FlowState) : Prop where
  memo : ∀ node symbol ty, state.memo node symbol = some ty → graph.Separate symbol →
    graph.Val symbol (fun _ => none) node ty
  closed : ∀ node symbol ty, state.memo node symbol = some ty →
    ∀ a ∈ graph.needed symbol node, (a = .start ∨ a = .unreachable) ∨ (state.memo a symbol).isSome
  flight : ∀ node symbol, (state.provisional node symbol).isSome →
    state.memo node symbol = none ∧ graph.IsLabel node
  idle : state.loopDepth = 0 → ∀ node symbol, state.provisional node symbol = none

variable {label : FlowNodeId}

/-- A sentinel depends on nothing else. -/
theorem eq_of_dependsOn_sentinel (hordered : graph.Ordered)
    (hsentinel : node = .start ∨ node = .unreachable) {target : FlowNodeId}
    (h : graph.DependsOn symbol node target) : target = node := by
  have hsources : graph.sources symbol node = [] := by
    rcases hsentinel with rfl | rfl
    · simp [sources, needed, hordered.start]
    · simp [sources, needed, hordered.unreachable]
  cases Relation.ReflTransGen.cases_head h with
  | inl heq => exact heq.symm
  | inr hstep =>
    obtain ⟨source, hsource, -⟩ := hstep
    rw [hsources] at hsource
    cases hsource

theorem not_isLabel_sentinel (hordered : graph.Ordered)
    (hsentinel : node = .start ∨ node = .unreachable) : ¬graph.IsLabel node := by
  rintro ⟨pre, back, hnode⟩
  rcases hsentinel with rfl | rfl
  · rw [hordered.start] at hnode
    cases hnode
  · rw [hordered.unreachable] at hnode
    cases hnode

variable {state : FlowState}

/-- **A memoized node that a label in flight depends on does not depend on the label.**
Otherwise follow the dependency from the node to the label: it meets no other label, because
the two would depend on each other, so all nodes on the way are memoized, the label too. -/
theorem not_dependsOn_inFlight (hordered : graph.Ordered) (hinv : graph.OrderInv state)
    (hsep : graph.Separate symbol) (hlabel : (state.provisional label symbol).isSome)
    (hmemo : (state.memo node symbol).isSome) (hnode : graph.DependsOn symbol label node) :
    ¬graph.DependsOn symbol node label := by
  intro hback
  obtain ⟨hnone, hisLabel⟩ := hinv.flight label symbol hlabel
  induction hback using Relation.ReflTransGen.head_induction_on with
  | refl => simp [hnone] at hmemo
  | @head node source hsource hrest ih =>
    by_cases hloop : graph.IsLabel node
    · by_cases heq : node = label
      · rw [heq, hnone] at hmemo
        cases hmemo
      · exact hsep node label hloop hisLabel heq (.head hsource hrest) hnode
    · have hneeded : source ∈ graph.needed symbol node := by
        rwa [sources_of_not_isLabel hloop] at hsource
      obtain ⟨ty, hty⟩ := isSome_iff_exists.mp hmemo
      rcases hinv.closed node symbol ty hty source hneeded with hsentinel | hmemo
      · have heq := eq_of_dependsOn_sentinel hordered hsentinel hrest
        exact not_isLabel_sentinel hordered hsentinel (heq ▸ hisLabel)
      · exact ih hmemo (hnode.tail hsource)

variable (graph) in
/-- What is known of the type of a node during a call: outside every fixpoint it is memoized;
and if all labels in flight depend on the node, it is the type without memo. -/
def OrderKnown (symbol : SymbolId) (state : FlowState) (node : FlowNodeId) (ty : FlowType) : Prop :=
  (state.loopDepth = 0 → (node = .start ∨ node = .unreachable) ∨
    state.memo node symbol = some ty) ∧
  (graph.Separate symbol →
    (∀ label, (state.provisional label symbol).isSome → graph.DependsOn symbol label node) →
    graph.Val symbol (heldTypes state symbol) node ty)

theorem heldTypes_of_idle (hinv : graph.OrderInv state) (hdepth : state.loopDepth = 0) :
    heldTypes state symbol = fun _ => none := by
  funext n
  exact hinv.idle hdepth n symbol

theorem OrderInv.lookup (hordered : graph.Ordered) (hinv : graph.OrderInv state)
    (h : graph.flowLookupCached state node symbol = some ty) :
    graph.OrderKnown symbol state node ty := by
  unfold flowLookupCached at h
  by_cases hsentinel : node = .start ∨ node = .unreachable
  · rw [if_pos hsentinel, some.injEq] at h
    subst h
    exact ⟨fun _ => .inl hsentinel, fun _ _ => .sentinel hsentinel⟩
  · rw [if_neg hsentinel] at h
    cases hprovisional : state.provisional node symbol with
    | some found =>
      simp only [hprovisional, some.injEq] at h
      subst h
      refine ⟨?_, fun _ _ => .held hsentinel hprovisional⟩
      intro hdepth
      rw [hinv.idle hdepth node symbol] at hprovisional
      cases hprovisional
    | none =>
      simp only [hprovisional] at h
      refine ⟨fun _ => .inr h, ?_⟩
      intro hsep hflight
      refine (hinv.memo node symbol ty h hsep).congr ?_
      intro target htarget
      cases hheld : heldTypes state symbol target with
      | none => rfl
      | some found =>
        have hsome : (state.provisional target symbol).isSome :=
          isSome_iff_exists.mpr ⟨found, hheld⟩
        exact absurd htarget (not_dependsOn_inFlight hordered hinv hsep hsome
          (isSome_iff_exists.mpr ⟨ty, h⟩) (hflight target hsome))

/-! ## §3 The rules of a call -/

theorem OrderKnown.grows {before after : FlowState} (hgrows : Grows before after)
    (h : graph.OrderKnown symbol before node ty) : graph.OrderKnown symbol after node ty := by
  unfold OrderKnown heldTypes at h ⊢
  rw [hgrows.loopDepth, hgrows.provisional]
  refine ⟨?_, h.2⟩
  intro hdepth
  rcases h.1 hdepth with hsentinel | hmemo
  · exact .inl hsentinel
  · exact .inr (hgrows.memo node symbol ty hmemo)

/-- The type computed for a node that is no label. -/
theorem val_of_computed (hlookup : graph.flowLookupCached state node symbol = none)
    (h : graph.Computed symbol (graph.OrderKnown symbol state) node ty)
    (hsep : graph.Separate symbol)
    (hflight : ∀ label, (state.provisional label symbol).isSome → graph.DependsOn symbol label node) :
    graph.Val symbol (heldTypes state symbol) node ty := by
  have hlabel : ¬graph.IsLabel node := by
    rintro ⟨pre, back, hnode⟩
    simp [Computed, hnode] at h
  -- the labels in flight depend on what the node needs
  have hcomputed : graph.Computed symbol (graph.Val symbol (heldTypes state symbol)) node ty := by
    refine h.imp (fun a ha t hknown => hknown.2 hsep ?_)
    intro label hsome
    rw [← sources_of_not_isLabel hlabel] at ha
    exact (hflight label hsome).tail ha
  obtain ⟨f, hf, rfl⟩ := exists_compute hcomputed (fun _ _ _ h h' => h.det h')
  exact .step (not_or.mpr (not_sentinel_of_lookup_none hlookup))
    (tables_of_lookup_none hlookup).1 hlabel hf

/-- One more memo entry, outside every fixpoint. -/
theorem OrderInv.insert {state after : FlowState} (hinv : graph.OrderInv state)
    (hdepth : state.loopDepth = 0) (hafter : after.memo = state.memo.insert node symbol ty)
    (hprovisional : after.provisional = state.provisional)
    (hval : graph.Separate symbol → graph.Val symbol (fun _ => none) node ty)
    (hneeded : ∀ a ∈ graph.needed symbol node,
      (a = .start ∨ a = .unreachable) ∨ (state.memo a symbol).isSome) : graph.OrderInv after := by
  have hsome : ∀ n s, (state.memo n s).isSome → (after.memo n s).isSome := by
    intro n s h
    rw [hafter]
    by_cases heq : n = node ∧ s = symbol
    · obtain ⟨rfl, rfl⟩ := heq
      simp
    · rwa [insert_ne _ _ heq]
  refine ⟨?_, ?_, ?_, ?_⟩
  · intro n s t ht hsep
    rw [hafter] at ht
    by_cases heq : n = node ∧ s = symbol
    · obtain ⟨rfl, rfl⟩ := heq
      rw [insert_self, some.injEq] at ht
      exact ht ▸ hval hsep
    · rw [insert_ne _ _ heq] at ht
      exact hinv.memo n s t ht hsep
  · intro n s t ht a ha
    rw [hafter] at ht
    by_cases heq : n = node ∧ s = symbol
    · obtain ⟨rfl, rfl⟩ := heq
      exact (hneeded a ha).imp_right (hsome a s)
    · rw [insert_ne _ _ heq] at ht
      exact (hinv.closed n s t ht a ha).imp_right (hsome a s)
  · intro n s h
    rw [hprovisional, hinv.idle hdepth n s] at h
    cases h
  · intro _ n s
    rw [hprovisional]
    exact hinv.idle hdepth n s

theorem OrderInv.settle (hinv : graph.OrderInv state)
    (hlookup : graph.flowLookupCached state node symbol = none)
    (h : graph.Computed symbol (graph.OrderKnown symbol state) node ty) :
    graph.OrderInv (flowSet state node symbol ty) ∧
      graph.OrderKnown symbol (flowSet state node symbol ty) node ty := by
  have hval := val_of_computed hlookup h
  unfold flowSet
  split
  · rename_i hdepth
    have hheld : heldTypes state symbol = fun _ => none := heldTypes_of_idle hinv hdepth
    refine ⟨hinv.insert hdepth rfl rfl ?_ ?_, ?_, ?_⟩
    · intro hsep
      rw [← hheld]
      refine hval hsep ?_
      intro label hsome
      rw [hinv.idle hdepth label symbol] at hsome
      cases hsome
    · intro a ha
      obtain ⟨t, ht⟩ := h.exists_needed a ha
      exact (ht.1 hdepth).imp_right (fun hmemo => isSome_iff_exists.mpr ⟨t, hmemo⟩)
    · exact fun _ => .inr (insert_self _ _ _ _)
    · exact hval
  · rename_i hdepth
    exact ⟨hinv, fun h => absurd h hdepth, hval⟩

variable (graph) in
/-- The invariant, with a bound for the labels that are not in flight. -/
def OrderBound (symbol : SymbolId) (bound : Nat) (state : FlowState) : Prop :=
  graph.OrderInv state ∧ graph.idleNodes symbol state ≤ bound

/-- One more label in flight. -/
theorem OrderInv.enter {state after : FlowState} (hinv : graph.OrderInv state)
    (hmemo : after.memo = state.memo) (hdepth : after.loopDepth ≠ 0)
    (hprovisional : after.provisional = state.provisional.insert label symbol ty)
    (hfree : state.memo label symbol = none) (hlabel : graph.IsLabel label) :
    graph.OrderInv after := by
  refine ⟨?_, ?_, ?_, fun h => absurd h hdepth⟩
  · rw [hmemo]
    exact hinv.memo
  · rw [hmemo]
    exact hinv.closed
  · intro n s h
    rw [hprovisional] at h
    rw [hmemo]
    by_cases heq : n = label ∧ s = symbol
    · obtain ⟨rfl, rfl⟩ := heq
      exact ⟨hfree, hlabel⟩
    · rw [insert_ne _ _ heq] at h
      exact hinv.flight n s h

theorem heldTypes_insert {state after : FlowState}
    (h : after.provisional = state.provisional.insert label symbol ty) :
    heldTypes after symbol = update (heldTypes state symbol) label (some ty) := by
  funext n
  unfold heldTypes
  rw [h]
  by_cases hn : n = label
  · rw [hn, insert_self, update_self]
  · rw [insert_ne _ _ (fun h => hn h.1), update_of_ne hn]

/-- The edges of a label, resolved with the label in flight. -/
theorem val_of_edges {state after : FlowState} {edges pre back : List FlowNodeId}
    {parts : List FlowType} {seed : FlowType} (hsep : graph.Separate symbol)
    (hnode : graph.nodes[label]? = some (.loopLabel pre back)) (hsub : edges ⊆ pre ++ back)
    (hprovisional : after.provisional = state.provisional.insert label symbol seed)
    (hflight : ∀ other, (state.provisional other symbol).isSome →
      graph.DependsOn symbol other label)
    (h : List.Forall₂ (graph.OrderKnown symbol after) edges parts) :
    ∃ f : FlowNodeId → FlowType, (∀ a ∈ edges, graph.Val symbol
      (update (heldTypes state symbol) label (some seed)) a (f a)) ∧ parts = edges.map f := by
  have hval : List.Forall₂ (graph.Val symbol
      (update (heldTypes state symbol) label (some seed))) edges parts := by
    rw [← heldTypes_insert hprovisional]
    refine forall₂_iff_get.mpr ?_
    obtain ⟨hlength, hget⟩ := forall₂_iff_get.mp h
    refine ⟨hlength, fun i h₁ h₂ => (hget i h₁ h₂).2 hsep ?_⟩
    intro other hother
    have hedge : edges.get ⟨i, h₁⟩ ∈ graph.sources symbol label := by
      rw [sources_loopLabel hnode]
      exact hsub (get_mem _ _)
    by_cases heq : other = label
    · rw [heq]
      exact .single hedge
    · rw [hprovisional, insert_ne _ _ (fun h => heq h.1)] at hother
      exact (hflight other hother).tail hedge
  exact exists_known hval (fun _ _ _ h h' => h.det h')

/-- The label is no longer in flight. -/
theorem OrderInv.leave {state last : FlowState} {seed : FlowType} (hinv : graph.OrderInv state)
    (hlast : graph.OrderInv last) (hidle : state.provisional label symbol = none)
    (hprovisional : last.provisional = state.provisional.insert label symbol seed) :
    graph.OrderInv ⟨last.memo, state.provisional, state.loopDepth⟩ := by
  refine ⟨hlast.memo, hlast.closed, ?_, hinv.idle⟩
  intro n s h
  refine hlast.flight n s ?_
  rw [hprovisional, insert_ne]
  · exact h
  · rintro ⟨rfl, rfl⟩
    simp [hidle] at h

/-- **A loop label resolves to its type without memo**, when calls with one more label in
flight do. -/
theorem orderLoop {bound : Nat} (hordered : graph.Ordered) {pre back : List FlowNodeId}
    (rules : graph.WalkRules symbol (graph.OrderBound symbol bound) (graph.OrderKnown symbol))
    (hinv : graph.OrderBound symbol (bound + 1) state)
    (hlookup : graph.flowLookupCached state label symbol = none)
    (hnode : graph.nodes[label]? = some (.loopLabel pre back)) :
    ∃ ty after, graph.LoopsTo label symbol state (ty, after) ∧
      graph.OrderBound symbol (bound + 1) after ∧ Grows state after ∧
      graph.OrderKnown symbol after label ty := by
  obtain ⟨hidle, hfree⟩ := tables_of_lookup_none hlookup
  have hlabel : label < graph.nodes.length := (List.getElem?_eq_some_iff.mp hnode).1
  have hisLabel : graph.IsLabel label := ⟨pre, back, hnode⟩
  -- the pre edges, with the placeholder under the label
  have hinv₀ : graph.OrderBound symbol bound (graph.enterLoop state label symbol) :=
    ⟨hinv.1.enter rfl (by simp [enterLoop]) rfl hfree hisLabel,
      Nat.le_of_lt_succ ((idleNodes_insert_lt hlabel hidle rfl).trans_le hinv.2)⟩
  obtain ⟨preParts, mid, hpre, hinv₁, hgrows₁, hpreParts⟩ :=
    allResolveTo_of_rules rules hordered.descending hinv₀ pre
  -- the back edges, with the seed under the label
  have hmidDepth : mid.loopDepth ≠ 0 := by
    rw [hgrows₁.loopDepth]
    simp [enterLoop]
  have hseed := provisional_seedLoop (unionAll preParts) hgrows₁
  have hmidFree : mid.memo label symbol = none := by
    refine (hinv₁.1.flight label symbol ?_).1
    rw [hgrows₁.provisional]
    simp [enterLoop]
  have hinv₂ : graph.OrderBound symbol bound
      (seedLoop mid label symbol (unionAll preParts)) :=
    ⟨hinv₁.1.enter rfl hmidDepth rfl hmidFree hisLabel,
      Nat.le_of_lt_succ ((idleNodes_insert_lt hlabel hidle hseed).trans_le hinv.2)⟩
  obtain ⟨parts, last, hback, hinv₃, hgrows₂, hparts⟩ :=
    allResolveTo_of_rules rules hordered.descending hinv₂ back
  obtain ⟨hprovisional, hdepth, hgrows⟩ := grows_unroll
    (unionAll (unionAll preParts :: parts)) hlookup hgrows₁ hgrows₂
  have hval : graph.Separate symbol →
      (∀ other, (state.provisional other symbol).isSome → graph.DependsOn symbol other label) →
      graph.Val symbol (heldTypes state symbol) label
        (unionAll (unionAll preParts :: parts)) := by
    intro hsep hflight
    obtain ⟨f, hf, rfl⟩ := val_of_edges hsep hnode (subset_append_left _ _)
      hgrows₁.provisional hflight hpreParts
    obtain ⟨g, hg, rfl⟩ := val_of_edges hsep hnode (subset_append_right _ _)
      hprovisional hflight hparts
    exact .loop (not_or.mpr (not_sentinel_of_lookup_none hlookup)) hidle hnode hf hg
  refine ⟨_, _, .unroll hnode hlookup hpre hback, ⟨?_, ?_⟩, hgrows, ?_, ?_⟩
  · have hleft := hinv.1.leave hinv₃.1 hidle hprovisional
    by_cases hzero : state.loopDepth = 0
    · have hmemo : (leaveLoop last label symbol
          (unionAll (unionAll preParts :: parts))).memo =
            last.memo.insert label symbol
              (unionAll (unionAll preParts :: parts)) := by
        rw [memo_leaveLoop hdepth, if_pos hzero]
      refine hleft.insert hzero hmemo hgrows.provisional ?_ ?_
      · intro hsep
        rw [← heldTypes_of_idle hinv.1 hzero]
        refine hval hsep ?_
        intro other hsome
        rw [hinv.1.idle hzero other symbol] at hsome
        cases hsome
      · simp [needed, hnode]
    · have hsame : leaveLoop last label symbol
          (unionAll (unionAll preParts :: parts)) =
            ⟨last.memo, state.provisional, state.loopDepth⟩ := by
        have hmemo := @memo_leaveLoop symbol state label
          (unionAll (unionAll preParts :: parts)) last hdepth
        rw [if_neg hzero] at hmemo
        rw [← hmemo, ← hgrows.provisional, ← hgrows.loopDepth]
      rw [hsame]
      exact hleft
  · rw [idleNodes_of_grows hgrows]
    exact hinv.2
  · intro hzero
    rw [hgrows.loopDepth] at hzero
    refine .inr ?_
    rw [memo_leaveLoop hdepth, if_pos hzero]
    exact insert_self _ _ _ _
  · rw [show heldTypes (leaveLoop last label symbol
      (unionAll (unionAll preParts :: parts))) symbol = heldTypes state symbol from
        funext (fun n => by rw [heldTypes, hgrows.provisional]; rfl), hgrows.provisional]
    exact hval

/-- **Every type the walk computes is the type without memo.** -/
theorem orderRules (hordered : graph.Ordered) (symbol : SymbolId) (bound : Nat) :
    graph.WalkRules symbol (graph.OrderBound symbol bound) (graph.OrderKnown symbol) :=
  boundedRules graph.OrderInv (graph.OrderKnown symbol) .grows
    (fun hinv h => hinv.lookup hordered h) OrderInv.settle
    (fun rules _ _ _ _ => orderLoop hordered rules) bound

/-! ## §4 Sequences of calls -/

theorem orderInv_empty : graph.OrderInv .empty := by
  refine ⟨?_, ?_, ?_, fun _ _ _ => rfl⟩
  · intro node symbol ty h
    cases h
  · intro node symbol ty h
    cases h
  · intro node symbol h
    cases h

/-- One call between calls. -/
theorem OrderInv.call (hordered : graph.Ordered) (hinv : graph.OrderInv state)
    (hdepth : state.loopDepth = 0) (node : FlowNodeId) (symbol : SymbolId) :
    ∃ ty after, graph.ResolvesTo node symbol state (ty, after) ∧ graph.OrderInv after ∧
      after.loopDepth = 0 ∧
      (graph.Separate symbol → graph.Val symbol (fun _ => none) node ty) := by
  obtain ⟨ty, after, hresolves, hafter, hgrows, hknown⟩ := resolvesTo_of_rules
    (orderRules hordered symbol (graph.idleNodes symbol state)) hordered.descending
    ⟨hinv, le_rfl⟩ node
  have hzero : after.loopDepth = 0 := hgrows.loopDepth.trans hdepth
  refine ⟨ty, after, hresolves, hafter.1, hzero, ?_⟩
  intro hsep
  rw [← heldTypes_of_idle hafter.1 hzero]
  refine hknown.2 hsep ?_
  intro label hsome
  rw [hafter.1.idle hzero label symbol] at hsome
  cases hsome

/-- Any sequence of calls: every answer is the type without memo. -/
theorem OrderInv.calls (hordered : graph.Ordered) (calls : List (FlowNodeId × SymbolId))
    (hinv : graph.OrderInv state) (hdepth : state.loopDepth = 0) :
    ∃ fuel answers after, graph.resolveCalls fuel calls state = some (answers, after) ∧
      ∀ (i : Nat) (node : FlowNodeId) (symbol : SymbolId), calls[i]? = some (node, symbol) →
        ∃ ty, answers[i]? = some ty ∧
          (graph.Separate symbol → graph.Val symbol (fun _ => none) node ty) := by
  induction calls generalizing state with
  | nil => exact ⟨0, [], state, rfl, by simp⟩
  | cons call rest ih =>
    obtain ⟨ty, mid, ⟨fuel, hcall⟩, hmid, hzero, hval⟩ := hinv.call hordered hdepth call.1 call.2
    obtain ⟨fuelRest, answers, after, hrest, hanswers⟩ := ih hmid hzero
    refine ⟨fuel + fuelRest, ty :: answers, after, calls_cons _ hcall hrest, ?_⟩
    intro i node symbol hi
    cases i with
    | zero =>
      rw [getElem?_cons_zero, some.injEq] at hi
      subst hi
      exact ⟨ty, rfl, hval⟩
    | succ i =>
      rw [getElem?_cons_succ] at hi
      exact hanswers i node symbol hi

end FlowGraph

/-- **Flow answers do not depend on the order of the calls**, for the graph that the pre-pass
builds of any statements and a symbol for which no two loop labels depend on each other: any
two sequences of calls from empty tables terminate and give the same type for every node that
both ask about. -/
theorem answers_independent_of_order (env : FlowEnv) (scope : Scope) (stmts : List Stmt)
    (graph : FlowGraph) (hgraph : graph.nodes = (buildStmts env scope stmts Builder.initial).nodes)
    (symbol : SymbolId) (hsep : graph.Separate symbol)
    (first second : List (FlowNodeId × SymbolId)) :
    ∃ fuel answers after answers' after',
      graph.resolveCalls fuel first .empty = some (answers, after) ∧
      graph.resolveCalls fuel second .empty = some (answers', after') ∧
      ∀ (i j : Nat) (node : FlowNodeId), first[i]? = some (node, symbol) →
        second[j]? = some (node, symbol) →
        ∃ ty, answers[i]? = some ty ∧ answers'[j]? = some ty := by
  have hranked := (@grown_stmts env scope stmts Builder.initial Builder.ranked_initial).ranked
  have hordered := hranked.ordered graph hgraph
  obtain ⟨fuel, answers, after, hcalls, hanswers⟩ :=
    FlowGraph.orderInv_empty.calls hordered first rfl
  obtain ⟨fuel', answers', after', hcalls', hanswers'⟩ :=
    FlowGraph.orderInv_empty.calls hordered second rfl
  refine ⟨fuel + fuel', answers, after, answers', after', FlowGraph.calls_mono fuel' hcalls, ?_, ?_⟩
  · have hmono := FlowGraph.calls_mono fuel hcalls'
    rwa [Nat.add_comm] at hmono
  · intro i j node hi hj
    obtain ⟨ty, hty, hval⟩ := hanswers i node symbol hi
    obtain ⟨ty', hty', hval'⟩ := hanswers' j node symbol hj
    obtain rfl : ty = ty' := (hval hsep).det (hval' hsep)
    exact ⟨ty, hty, hty'⟩

/-- `x = null; while (x) { x; }`, bound. -/
def singleLoop : List Stmt :=
  (bindStmts exampleScope [.expression (.assignment .assign (.identifier 10 "x") .null),
    .while (.identifier 20 "x") (.block none [.expression (.identifier 30 "x")])] 1).1

/-- Its graph, with the declared type `null | number`. -/
def singleLoopGraph : FlowGraph :=
  ⟨(buildStmts exampleEnv exampleScope singleLoop Builder.initial).nodes,
    fun _ => .union {.other 5, .other 8}, fun _ _ => none⟩

theorem singleLoopGraph_separate : singleLoopGraph.Separate FlowGraph.exampleSymbol := by
  have honly : ∀ label, singleLoopGraph.IsLabel label → label = 3 := by
    rintro label ⟨pre, back, hrow⟩
    have hrows : singleLoopGraph.nodes =
        [.unreachable, .start, .assignment ⟨0, "x"⟩ (some (.union {.other 5})) 1,
          .loopLabel [2] [4], .condition ⟨0, "x"⟩ .truthy true 3,
          .condition ⟨0, "x"⟩ .truthy false 3] := rfl
    rw [hrows] at hrow
    have hlt : label < 6 := (List.getElem?_eq_some_iff.mp hrow).1
    interval_cases label <;> simp at hrow ⊢
  intro label label' hlabel hlabel' hne
  exact absurd ((honly label hlabel).trans (honly label' hlabel').symm) hne

/-- The body of the loop asked before and after its label. -/
theorem answers_independent_of_order_loop :
    singleLoopGraph.Separate FlowGraph.exampleSymbol ∧
      ∃ fuel answers after answers' after',
        singleLoopGraph.resolveCalls fuel
          [(4, FlowGraph.exampleSymbol), (3, FlowGraph.exampleSymbol)] .empty = some (answers, after) ∧
        singleLoopGraph.resolveCalls fuel
          [(3, FlowGraph.exampleSymbol), (4, FlowGraph.exampleSymbol)] .empty =
            some (answers', after') ∧
        ∀ (i j : Nat) (node : FlowNodeId),
          [((4 : FlowNodeId), FlowGraph.exampleSymbol), (3, FlowGraph.exampleSymbol)][i]? =
            some (node, FlowGraph.exampleSymbol) →
          [((3 : FlowNodeId), FlowGraph.exampleSymbol), (4, FlowGraph.exampleSymbol)][j]? =
            some (node, FlowGraph.exampleSymbol) →
          ∃ ty, answers[i]? = some ty ∧ answers'[j]? = some ty :=
  ⟨singleLoopGraph_separate, answers_independent_of_order exampleEnv exampleScope singleLoop
    singleLoopGraph rfl FlowGraph.exampleSymbol singleLoopGraph_separate _ _⟩

/-- `x = null; while (c) { while (c) { x; } }`, bound. -/
def nestedLoops : List Stmt :=
  (bindStmts exampleScope [.expression (.assignment .assign (.identifier 10 "x") .null),
    .while (.identifier 20 "c") (.block none [.while (.identifier 30 "c")
      (.block none [.expression (.identifier 40 "x")])])] 1).1

/-- Its graph, with the declared type `null | number`. -/
def nestedLoopsGraph : FlowGraph :=
  ⟨(buildStmts exampleEnv exampleScope nestedLoops Builder.initial).nodes,
    fun _ => .union {.other 5, .other 8}, fun _ _ => none⟩

/-- **Nested loops.**  Asked first, the label of the inner loop gets the declared type from
the placeholder under it; asked after the label of the outer loop, it gets `null`. -/
theorem inner_loop_depends_on_order :
    (nestedLoopsGraph.resolveCalls 40 [(4, FlowGraph.exampleSymbol)] .empty).map Prod.fst =
      some [.union {.other 5, .other 8}] ∧
    (nestedLoopsGraph.resolveCalls 40 [(3, FlowGraph.exampleSymbol), (4, FlowGraph.exampleSymbol)]
      .empty).map Prod.fst = some [.union {.other 5}, .union {.other 5}] ∧
    FlowType.union {.other 5, .other 8} ≠ .union {.other 5} := by
  refine ⟨by decide +kernel, by decide +kernel, by decide⟩

end Typokat.Check
