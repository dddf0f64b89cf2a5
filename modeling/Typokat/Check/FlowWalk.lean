import Mathlib.Data.List.Forall2
import Typokat.Check.FlowNodes

/-!
# Rules for a Whole Resolver Call

The resolver of `FlowNodes` interleaves a stack, a scratch table, a durable memo and nested
fixpoints.  What its answer satisfies is derived here once from what each kind of node
computes: a predicate on `(node, type)` pairs that cached types have, that each kind of node
passes on and that loop labels produce holds of the answer.  The same induction shows that
the call terminates.

## Main Results

- `settles` : the loop over the stack settles the node on top of it
- `resolvesTo_of_rules` : what a whole call returns, from what each kind of node computes
-/

namespace Typokat.Check

open Option List

namespace FlowGraph

variable {graph : FlowGraph} {symbol : SymbolId} {state : FlowState}

/-! ## §1 Progress of a call -/

/-- Between two points of one call the durable memo only grows, and at the end of every
nested resolution the labels in flight are the same as before. -/
structure Grows (before after : FlowState) : Prop where
  provisional : after.provisional = before.provisional
  loopDepth : after.loopDepth = before.loopDepth
  memo : ∀ node symbol ty, before.memo node symbol = some ty → after.memo node symbol = some ty

theorem Grows.refl (state : FlowState) : Grows state state :=
  ⟨rfl, rfl, fun _ _ _ h => h⟩

theorem Grows.trans {first second third : FlowState} (h : Grows first second)
    (h' : Grows second third) : Grows first third :=
  ⟨h'.provisional.trans h.provisional, h'.loopDepth.trans h.loopDepth,
    fun node symbol ty hmemo => h'.memo node symbol ty (h.memo node symbol ty hmemo)⟩

theorem grows_flowSet {node : FlowNodeId} (ty : FlowType)
    (h : graph.flowLookupCached state node symbol = none) :
    Grows state (flowSet state node symbol ty) := by
  unfold flowSet
  split
  · refine ⟨rfl, rfl, ?_⟩
    intro n s t hmemo
    show state.memo.insert node symbol ty n s = some t
    rw [FlowTable.insert_ne]
    · exact hmemo
    · rintro ⟨rfl, rfl⟩
      rw [(tables_of_lookup_none h).2] at hmemo
      cases hmemo
  · exact .refl state

theorem lookup_of_grows {before after : FlowState} {node : FlowNodeId} {ty : FlowType}
    (hgrows : Grows before after) (h : graph.flowLookupCached before node symbol = some ty) :
    graph.flowLookupCached after node symbol = some ty := by
  unfold flowLookupCached at h ⊢
  split
  · rename_i hsentinel
    rwa [if_pos hsentinel] at h
  · rename_i hsentinel
    rw [if_neg hsentinel] at h
    rw [hgrows.provisional]
    cases hprovisional : before.provisional node symbol with
    | some found => simpa [hprovisional] using h
    | none =>
      simp only [hprovisional] at h ⊢
      exact hgrows.memo node symbol ty h

variable (graph) in
/-- Every antecedent of a node that is no loop label has a smaller id. -/
def Descending : Prop :=
  ∀ (node : FlowNodeId) (row : FlowNode), graph.nodes[node]? = some row →
    (∀ pre back, row ≠ .loopLabel pre back) → ∀ antecedent ∈ row.antecedents, antecedent < node

variable (graph) in
/-- The type of a node that is no loop label, from types of its antecedents. -/
def Computed (symbol : SymbolId) (known : FlowNodeId → FlowType → Prop) (node : FlowNodeId)
    (ty : FlowType) : Prop :=
  match graph.nodes[node]? with
  | some (.assignment target assigned antecedent) =>
    if target = symbol then ty = assigned.getD (graph.declared symbol) else known antecedent ty
  | some (.condition guarded op positive antecedent) =>
    ∃ base, known antecedent base ∧
      ty = if guarded = symbol then graph.narrowBy op positive base else base
  | some (.branchLabel antecedents) =>
    ∃ parts, List.Forall₂ known antecedents parts ∧ ty = FlowType.unionAll parts
  | some (.loopLabel _ _) => False
  | _ => ty = .error

variable (graph) in
/-- What has to be shown of a predicate on computed types so that it holds of the answer of
a whole call: it is stable, cached types have it, each kind of node passes it on, and a loop
label resolves to a type that has it. -/
structure WalkRules (symbol : SymbolId) (Inv : FlowState → Prop)
    (Known : FlowState → FlowNodeId → FlowType → Prop) : Prop where
  grows : ∀ {before after node ty}, Grows before after → Known before node ty →
    Known after node ty
  cached : ∀ {state node ty}, Inv state → graph.flowLookupCached state node symbol = some ty →
    Known state node ty
  settle : ∀ {state node ty}, Inv state → graph.flowLookupCached state node symbol = none →
    graph.Computed symbol (Known state) node ty →
    Inv (flowSet state node symbol ty) ∧ Known (flowSet state node symbol ty) node ty
  loop : ∀ {state node pre back}, Inv state →
    graph.flowLookupCached state node symbol = none →
    graph.nodes[node]? = some (.loopLabel pre back) →
    ∃ ty after, graph.LoopsTo node symbol state (ty, after) ∧ Inv after ∧ Grows state after ∧
      Known after node ty

section Rules

variable {Inv : FlowState → Prop} {Known : FlowState → FlowNodeId → FlowType → Prop}

/-- Where one call stands: the invariant holds and the scratch is known. -/
structure Standing (Inv : FlowState → Prop) (Known : FlowState → FlowNodeId → FlowType → Prop)
    (scratch : Scratch) (state : FlowState) : Prop where
  inv : Inv state
  scratch : ∀ node ty, scratch node = some ty → Known state node ty

/-- Progress of one call: nothing known is lost. -/
structure Progress (scratch : Scratch) (state : FlowState) (scratch' : Scratch)
    (state' : FlowState) : Prop where
  grows : Grows state state'
  scratch : ∀ node ty, scratch node = some ty → scratch' node = some ty

theorem Progress.trans {s₁ s₂ s₃ : Scratch} {t₁ t₂ t₃ : FlowState} (h : Progress s₁ t₁ s₂ t₂)
    (h' : Progress s₂ t₂ s₃ t₃) : Progress s₁ t₁ s₃ t₃ :=
  ⟨h.grows.trans h'.grows, fun node ty hty => h'.scratch node ty (h.scratch node ty hty)⟩

variable {node : FlowNodeId}

theorem scratchOrCached_of_progress {scratch scratch' : Scratch} {state' : FlowState}
    (h : Progress scratch state scratch' state')
    (hsome : (graph.scratchOrCached state scratch node symbol).isSome) :
    (graph.scratchOrCached state' scratch' node symbol).isSome := by
  unfold scratchOrCached at hsome ⊢
  cases hscratch : scratch node with
  | some ty => simp [h.scratch node ty hscratch]
  | none =>
    simp only [hscratch] at hsome
    obtain ⟨ty, hty⟩ := isSome_iff_exists.mp hsome
    cases scratch' node with
    | some ty' => rfl
    | none => simp [lookup_of_grows h.grows hty]

section Standing

variable (rules : graph.WalkRules symbol Inv Known) {scratch : Scratch} {node : FlowNodeId}
  {ty : FlowType} (h : Standing Inv Known scratch state)
include rules h

theorem Standing.known (hty : graph.scratchOrCached state scratch node symbol = some ty) :
    Known state node ty := by
  unfold scratchOrCached at hty
  cases hscratch : scratch node with
  | some found =>
    simp only [hscratch, some.injEq] at hty
    exact h.scratch node ty (hty ▸ hscratch)
  | none =>
    simp only [hscratch] at hty
    exact rules.cached h.inv hty

/-- A type recorded for one more node. -/
theorem Standing.update {after : FlowState} (hinv : Inv after) (hgrows : Grows state after)
    (hknown : Known after node ty) :
    Standing Inv Known (Function.update scratch node (some ty)) after := by
  refine ⟨hinv, ?_⟩
  intro n t ht
  by_cases hn : n = node
  · subst hn
    rw [Function.update_self, some.injEq] at ht
    exact ht ▸ hknown
  · rw [Function.update_of_ne hn] at ht
    exact rules.grows hgrows (h.scratch n t ht)

end Standing

variable {scratch : Scratch}

theorem progress_update {after : FlowState} (ty : FlowType) (hscratch : scratch node = none)
    (hgrows : Grows state after) :
    Progress scratch state (Function.update scratch node (some ty)) after := by
  refine ⟨hgrows, ?_⟩
  intro n t ht
  rw [Function.update_of_ne]
  · exact ht
  · rintro rfl
    rw [hscratch] at ht
    cases ht

/-- The walk settles the node on top of its stack: from some later point of the call, where
the node has a type, it goes on with the rest. -/
def SettledAt (graph : FlowGraph) (symbol : SymbolId) (Inv : FlowState → Prop)
    (Known : FlowState → FlowNodeId → FlowType → Prop) (node flow : FlowNodeId)
    (rest : List FlowNodeId) (scratch : Scratch) (state : FlowState) : Prop :=
  ∃ scratch' state', Standing Inv Known scratch' state' ∧
    Progress scratch state scratch' state' ∧ (scratch' node).isSome ∧
    ∀ r, graph.WalksTo flow symbol rest scratch' state' r →
      graph.WalksTo flow symbol (node :: rest) scratch state r

variable (graph) in
/-- The antecedents of which the walk needs the types before it can settle a node. -/
def needed (symbol : SymbolId) (node : FlowNodeId) : List FlowNodeId :=
  match graph.nodes[node]? with
  | some (.assignment target _ antecedent) => if target = symbol then [] else [antecedent]
  | some (.condition _ _ _ antecedent) => [antecedent]
  | some (.branchLabel antecedents) => antecedents
  | _ => []

/-- With all needed types at hand the node is settled with its computed type. -/
theorem visit_ready (rules : graph.WalkRules symbol Inv Known)
    (rest : List FlowNodeId) (h : Standing Inv Known scratch state)
    (hloop : ∀ pre back, graph.nodes[node]? ≠ some (.loopLabel pre back))
    (hready : ∀ a ∈ graph.needed symbol node,
      (graph.scratchOrCached state scratch a symbol).isSome) :
    ∃ ty, graph.visit symbol node rest scratch state = settle symbol node rest scratch state ty ∧
      graph.Computed symbol (Known state) node ty := by
  unfold needed at hready
  unfold visit Computed
  cases hnode : graph.nodes[node]? with
  | none => exact ⟨.error, rfl, rfl⟩
  | some row =>
    cases row with
    | unreachable => exact ⟨.error, rfl, rfl⟩
    | start => exact ⟨.error, rfl, rfl⟩
    | loopLabel pre back => exact absurd hnode (hloop pre back)
    | assignment target assigned antecedent =>
      simp only [hnode] at hready ⊢
      by_cases htarget : target = symbol
      · simp only [if_pos htarget]
        exact ⟨_, rfl, rfl⟩
      · simp only [if_neg htarget, mem_singleton, forall_eq] at hready ⊢
        obtain ⟨base, hbase⟩ := isSome_iff_exists.mp hready
        simp only [hbase]
        exact ⟨base, rfl, h.known rules hbase⟩
    | condition guarded op positive antecedent =>
      simp only [hnode, mem_singleton, forall_eq] at hready ⊢
      obtain ⟨base, hbase⟩ := isSome_iff_exists.mp hready
      simp only [hbase]
      exact ⟨_, rfl, base, h.known rules hbase, rfl⟩
    | branchLabel antecedents =>
      simp only [hnode] at hready ⊢
      have hfind : antecedents.find?
          (fun a => (graph.scratchOrCached state scratch a symbol).isNone) = none := by
        rw [find?_eq_none]
        intro a ha
        simpa using isSome_iff_ne_none.mp (hready a ha)
      simp only [hfind]
      refine ⟨_, rfl, _, ?_, rfl⟩
      rw [forall₂_map_right_iff, forall₂_same]
      intro a ha
      obtain ⟨ty, hty⟩ := isSome_iff_exists.mp (hready a ha)
      rw [hty, getD_some]
      exact h.known rules hty

/-- The first needed antecedent without a type is pushed. -/
theorem visit_missing {node missing : FlowNodeId} (rest : List FlowNodeId)
    {done todo : List FlowNodeId} (hneeded : graph.needed symbol node = done ++ missing :: todo)
    (hdone : ∀ a ∈ done, (graph.scratchOrCached state scratch a symbol).isSome)
    (hmissing : graph.scratchOrCached state scratch missing symbol = none) :
    graph.visit symbol node rest scratch state = .next (missing :: node :: rest) scratch state := by
  unfold needed at hneeded
  unfold visit
  cases hnode : graph.nodes[node]? with
  | none => simp [hnode] at hneeded
  | some row =>
    cases row with
    | unreachable | start | loopLabel pre back => simp [hnode] at hneeded
    | assignment target assigned antecedent =>
      simp only [hnode] at hneeded ⊢
      by_cases htarget : target = symbol
      · simp [htarget] at hneeded
      · rw [if_neg htarget] at hneeded
        obtain ⟨rfl, rfl, rfl⟩ : done = [] ∧ missing = antecedent ∧ todo = [] := by
          simpa [singleton_eq_append_iff] using hneeded
        simp only [if_neg htarget, hmissing]
    | condition guarded op positive antecedent =>
      simp only [hnode] at hneeded ⊢
      obtain ⟨rfl, rfl, rfl⟩ : done = [] ∧ missing = antecedent ∧ todo = [] := by
        simpa [singleton_eq_append_iff] using hneeded
      simp only [hmissing]
    | branchLabel antecedents =>
      simp only [hnode] at hneeded ⊢
      have hfind : antecedents.find?
          (fun a => (graph.scratchOrCached state scratch a symbol).isNone) = some missing := by
        rw [hneeded, find?_append, find?_eq_none.mpr, none_or, find?_cons]
        · simp [hmissing]
        · intro a ha
          simpa using isSome_iff_ne_none.mp (hdone a ha)
      simp only [hfind]

/-- A node that is in the scratch or cached is settled at once. -/
theorem settles_known (rules : graph.WalkRules symbol Inv Known) (flow : FlowNodeId)
    (rest : List FlowNodeId) (h : Standing Inv Known scratch state)
    (hknown : (graph.scratchOrCached state scratch node symbol).isSome) :
    SettledAt graph symbol Inv Known node flow rest scratch state := by
  cases hscratch : scratch node with
  | some ty =>
    refine ⟨scratch, state, h, ⟨.refl state, fun _ _ ht => ht⟩, by simp [hscratch], ?_⟩
    intro r hr
    exact .next (by simp [walkStep, hscratch]) hr
  | none =>
    simp only [scratchOrCached, hscratch] at hknown
    obtain ⟨ty, hlookup⟩ := isSome_iff_exists.mp hknown
    refine ⟨_, state, h.update rules h.inv (.refl state) (rules.cached h.inv hlookup),
      progress_update ty hscratch (.refl state), by simp, ?_⟩
    intro r hr
    exact .next (by simp [walkStep, hscratch, hlookup]) hr

theorem tables_of_unknown (h : ¬(graph.scratchOrCached state scratch node symbol).isSome) :
    scratch node = none ∧ graph.flowLookupCached state node symbol = none := by
  unfold scratchOrCached at h
  cases hscratch : scratch node with
  | some ty => simp [hscratch] at h
  | none => simpa [hscratch] using h

/-- A node whose needed antecedents have types is settled. -/
theorem settles_ready (rules : graph.WalkRules symbol Inv Known)
    (flow : FlowNodeId) (rest : List FlowNodeId)
    (h : Standing Inv Known scratch state)
    (hready : ∀ a ∈ graph.needed symbol node,
      (graph.scratchOrCached state scratch a symbol).isSome) :
    SettledAt graph symbol Inv Known node flow rest scratch state := by
  by_cases hknown : (graph.scratchOrCached state scratch node symbol).isSome
  · exact settles_known rules flow rest h hknown
  obtain ⟨hscratch, hlookup⟩ := tables_of_unknown hknown
  have hvisit : graph.walkStep symbol (node :: rest) scratch state
      = graph.visit symbol node rest scratch state := by
    simp [walkStep, hscratch, hlookup]
  by_cases hloop : ∃ pre back, graph.nodes[node]? = some (.loopLabel pre back)
  · obtain ⟨pre, back, hnode⟩ := hloop
    obtain ⟨ty, after, hloops, hinv, hgrows, hknown⟩ := rules.loop h.inv hlookup hnode
    refine ⟨_, after, h.update rules hinv hgrows hknown, progress_update ty hscratch hgrows,
      by simp, ?_⟩
    intro r hr
    exact .loop (by rw [hvisit, visit, hnode]) hloops hr
  · push Not at hloop
    obtain ⟨ty, hty, hcomputed⟩ := visit_ready rules rest h hloop hready
    obtain ⟨hinv, hknown⟩ := rules.settle h.inv hlookup hcomputed
    have hgrows := grows_flowSet ty hlookup
    refine ⟨_, _, h.update rules hinv hgrows hknown, progress_update ty hscratch hgrows,
      by simp, ?_⟩
    intro r hr
    exact .next (by rw [hvisit, hty]; rfl) hr

theorem mem_antecedents_of_needed {node antecedent : FlowNodeId}
    (h : antecedent ∈ graph.needed symbol node) :
    ∃ row, graph.nodes[node]? = some row ∧ antecedent ∈ row.antecedents ∧
      ∀ pre back, row ≠ .loopLabel pre back := by
  unfold needed at h
  cases hnode : graph.nodes[node]? with
  | none => simp [hnode] at h
  | some row =>
    refine ⟨row, rfl, ?_, ?_⟩
    · cases row with
      | assignment target assigned a =>
        simp only [hnode] at h
        by_cases htarget : target = symbol
        · simp [htarget] at h
        · simpa [htarget, FlowNode.antecedents] using h
      | condition guarded op positive a => simpa [hnode, FlowNode.antecedents] using h
      | branchLabel antecedents => simpa [hnode, FlowNode.antecedents] using h
      | unreachable | start | loopLabel pre back => simp [hnode] at h
    · rintro pre back rfl
      simp [hnode] at h

section Settling

variable (rules : graph.WalkRules symbol Inv Known) (hdesc : graph.Descending)
include rules hdesc

/-- **The walk settles every node.**  Induction on the id: what is pushed is smaller. -/
theorem settles (node flow : FlowNodeId) (rest : List FlowNodeId) {scratch : Scratch}
    (h : Standing Inv Known scratch state) :
    SettledAt graph symbol Inv Known node flow rest scratch state := by
  induction node using Nat.strong_induction_on generalizing rest scratch state with
  | _ node ih =>
  -- the needed antecedents are settled one after another, `done` being behind us
  have hloop : ∀ todo done, graph.needed symbol node = done ++ todo →
      ∀ scratch state, Standing Inv Known scratch state →
      (∀ a ∈ done, (graph.scratchOrCached state scratch a symbol).isSome) →
      SettledAt graph symbol Inv Known node flow rest scratch state := by
    intro todo
    induction todo with
    | nil =>
      intro done hneeded scratch state h hdone
      rw [append_nil] at hneeded
      exact settles_ready rules flow rest h (hneeded ▸ hdone)
    | cons missing todo ihtodo =>
      intro done hneeded scratch state h hdone
      have hsplit : graph.needed symbol node = (done ++ [missing]) ++ todo := by
        rw [hneeded, append_assoc, singleton_append]
      have hextend : ∀ {scratch state},
          (∀ a ∈ done, (graph.scratchOrCached state scratch a symbol).isSome) →
          (graph.scratchOrCached state scratch missing symbol).isSome →
          ∀ a ∈ done ++ [missing], (graph.scratchOrCached state scratch a symbol).isSome := by
        intro scratch state hd hm a ha
        rcases mem_append.mp ha with ha | ha
        · exact hd a ha
        · rw [mem_singleton] at ha
          exact ha ▸ hm
      by_cases hmissing : (graph.scratchOrCached state scratch missing symbol).isSome
      · exact ihtodo (done ++ [missing]) hsplit scratch state h (hextend hdone hmissing)
      by_cases hknown : (graph.scratchOrCached state scratch node symbol).isSome
      · exact settles_known rules flow rest h hknown
      -- push the missing antecedent, settle it, and come back
      obtain ⟨hscratch, hlookup⟩ := tables_of_unknown hknown
      obtain ⟨row, hrow, hmem, hnoloop⟩ := mem_antecedents_of_needed
        (show missing ∈ graph.needed symbol node by simp [hneeded])
      have hlt := hdesc node row hrow hnoloop missing hmem
      obtain ⟨scratch₁, state₁, h₁, hprogress₁, hsome₁, hwalk₁⟩ :=
        ih missing hlt (node :: rest) h
      have hmissing₁ : (graph.scratchOrCached state₁ scratch₁ missing symbol).isSome := by
        obtain ⟨ty, hty⟩ := isSome_iff_exists.mp hsome₁
        simp [scratchOrCached, hty]
      obtain ⟨scratch₂, state₂, h₂, hprogress₂, hsome₂, hwalk₂⟩ :=
        ihtodo (done ++ [missing]) hsplit scratch₁ state₁ h₁
          (hextend (fun a ha => scratchOrCached_of_progress hprogress₁ (hdone a ha)) hmissing₁)
      refine ⟨scratch₂, state₂, h₂, hprogress₁.trans hprogress₂, hsome₂, ?_⟩
      intro r hr
      refine .next ?_ (hwalk₁ r (hwalk₂ r hr))
      rw [walkStep, hscratch, hlookup]
      exact visit_missing rest hneeded hdone (not_isSome_iff_eq_none.mp hmissing)
  exact hloop (graph.needed symbol node) [] rfl scratch state h (by simp)

/-- **What a whole call returns.**  A predicate with the rules holds of the answer, the
invariant still holds, and the call terminates. -/
theorem resolvesTo_of_rules (hinv : Inv state) (flow : FlowNodeId) :
    ∃ ty after, graph.ResolvesTo flow symbol state (ty, after) ∧ Inv after ∧
      Grows state after ∧ Known after flow ty := by
  cases hlookup : graph.flowLookupCached state flow symbol with
  | some ty => exact ⟨ty, state, .cached hlookup, hinv, .refl state, rules.cached hinv hlookup⟩
  | none =>
    have hstanding : Standing Inv Known (fun _ => none) state :=
      ⟨hinv, fun _ _ h => by cases h⟩
    obtain ⟨scratch, after, h, hprogress, hsome, hwalk⟩ :=
      settles rules hdesc flow flow [] hstanding
    obtain ⟨ty, hty⟩ := isSome_iff_exists.mp hsome
    refine ⟨ty, after, .walk hlookup (hwalk _ ?_), h.inv, hprogress.grows, h.scratch flow ty hty⟩
    have hdone : graph.WalksTo flow symbol [] scratch after
        ((scratch flow).getD (graph.declared symbol), after) := .done
    rwa [hty, getD_some] at hdone

/-- The same for the antecedents of a label, one call after another. -/
theorem allResolveTo_of_rules (hinv : Inv state) (antecedents : List FlowNodeId) :
    ∃ parts after, graph.AllResolveTo antecedents symbol state (parts, after) ∧ Inv after ∧
      Grows state after ∧ List.Forall₂ (Known after) antecedents parts := by
  induction antecedents generalizing state with
  | nil => exact ⟨[], state, .nil, hinv, .refl state, .nil⟩
  | cons antecedent rest ih =>
    obtain ⟨ty, state₁, hhead, hinv₁, hgrows₁, hknown⟩ :=
      resolvesTo_of_rules rules hdesc hinv antecedent
    obtain ⟨parts, state₂, hrest, hinv₂, hgrows₂, hparts⟩ := ih hinv₁
    exact ⟨ty :: parts, state₂, .cons hhead hrest, hinv₂, hgrows₁.trans hgrows₂,
      .cons (rules.grows hgrows₂ hknown) hparts⟩

end Settling

end Rules

end FlowGraph

end Typokat.Check
