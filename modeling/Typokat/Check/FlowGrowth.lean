import Mathlib.Data.List.Forall2
import Mathlib.Data.List.Infix
import Typokat.Check.FlowBuild
import Typokat.Check.FlowCoverage

/-!
# What a Run of the Flow Builder Can Do

Building a construct only adds: nodes and back edges to the arena, edges to the break
targets and label frames, entries to the recorded references.  The stacks keep their
frames.  And every edge it adds points to a node that exists, never to `UNREACHABLE`.

## Main Results

- `grown_stmts` : building any statements grows the builder
- `Builder.Ranked.ordered` : the graph of a ranked builder is one the resolver walks
-/

namespace Typokat.Check

open Types Builder List

/-! ## §1 Arenas that grow -/

/-- A node keeps its row, except that a loop label gets more back edges. -/
def RowExtends (row row' : FlowNode) : Prop :=
  row' = row ∨ ∃ pre back back', row = .loopLabel pre back ∧ row' = .loopLabel pre back' ∧
    back ⊆ back'

theorem RowExtends.refl (row : FlowNode) : RowExtends row row := .inl rfl

theorem RowExtends.trans {first second third : FlowNode} (h : RowExtends first second)
    (h' : RowExtends second third) : RowExtends first third := by
  rcases h with rfl | ⟨pre, back, back', rfl, rfl, hsub⟩
  · exact h'
  rcases h' with rfl | ⟨pre', mid, back'', heq, rfl, hsub'⟩
  · exact .inr ⟨pre, back, back', rfl, rfl, hsub⟩
  · cases heq
    exact .inr ⟨pre, back, back'', rfl, rfl, List.Subset.trans hsub hsub'⟩

/-- An edge of a node stays an edge. -/
theorem RowExtends.antecedents {row row' : FlowNode} (h : RowExtends row row') :
    row.antecedents ⊆ row'.antecedents := by
  rcases h with rfl | ⟨pre, back, back', rfl, rfl, hsub⟩
  · exact fun _ ha => ha
  · intro a ha
    rcases mem_append.mp ha with ha | ha
    · exact mem_append_left _ ha
    · exact mem_append_right _ (hsub ha)

/-- The nodes of an arena are kept by another. -/
def NodesExtend (nodes nodes' : List FlowNode) : Prop :=
  ∀ (node : Nat) (row : FlowNode), nodes[node]? = some row →
    ∃ row', nodes'[node]? = some row' ∧ RowExtends row row'

theorem NodesExtend.refl (nodes : List FlowNode) : NodesExtend nodes nodes :=
  fun _ row h => ⟨row, h, .refl row⟩

theorem NodesExtend.trans {first second third : List FlowNode} (h : NodesExtend first second)
    (h' : NodesExtend second third) : NodesExtend first third := by
  intro node row hrow
  obtain ⟨mid, hmid, hext⟩ := h node row hrow
  obtain ⟨last, hlast, hext'⟩ := h' node mid hmid
  exact ⟨last, hlast, hext.trans hext'⟩

theorem nodesExtend_append (nodes added : List FlowNode) : NodesExtend nodes (nodes ++ added) := by
  intro node row hrow
  refine ⟨row, ?_, .refl row⟩
  rw [List.getElem?_append_left (List.getElem?_eq_some_iff.mp hrow).1]
  exact hrow

theorem rowExtends_withBackEdge (edge : FlowNodeId) (row : FlowNode) :
    RowExtends row (withBackEdge edge row) := by
  cases row with
  | loopLabel pre back =>
    exact .inr ⟨pre, back, back ++ [edge], rfl, rfl, subset_append_left back [edge]⟩
  | _ => exact .inl rfl

theorem nodesExtend_modify (nodes : List FlowNode) (label edge : FlowNodeId) :
    NodesExtend nodes (nodes.modify label (withBackEdge edge)) := by
  intro node row hrow
  by_cases h : label = node
  · refine ⟨withBackEdge edge row, ?_, rowExtends_withBackEdge edge row⟩
    simp [h, hrow]
  · refine ⟨row, ?_, .refl row⟩
    simp [h, hrow]

theorem NodesExtend.length_le {nodes nodes' : List FlowNode} (h : NodesExtend nodes nodes') :
    nodes.length ≤ nodes'.length := by
  rcases Nat.eq_zero_or_pos nodes.length with hzero | hpos
  · omega
  · obtain ⟨row', hrow', -⟩ := h (nodes.length - 1) nodes[nodes.length - 1]
      (List.getElem?_eq_getElem (by omega))
    have := (List.getElem?_eq_some_iff.mp hrow').1
    omega

/-! ## §2 Ranked builders -/

/-- The edges of one row: to existing nodes, never to `UNREACHABLE`, and to earlier nodes
unless the row is a loop label. -/
structure RowRanked (length node : Nat) (row : FlowNode) : Prop where
  reachable : ∀ a ∈ row.antecedents, a ≠ .unreachable
  exists_ : ∀ a ∈ row.antecedents, a < length
  earlier : (∀ pre back, row ≠ .loopLabel pre back) → ∀ a ∈ row.antecedents, a < node

theorem RowRanked.mono {length length' node : Nat} {row : FlowNode} (h : RowRanked length node row)
    (hle : length ≤ length') : RowRanked length' node row :=
  ⟨h.reachable, fun a ha => (h.exists_ a ha).trans_le hle, h.earlier⟩

namespace Builder

/-- Everything the builder holds points to nodes that exist. -/
structure Ranked (b : Builder) : Prop where
  unreachable : b.nodes[FlowNodeId.unreachable]? = some .unreachable
  start : b.nodes[FlowNodeId.start]? = some .start
  rows : ∀ (node : Nat) (row : FlowNode), b.nodes[node]? = some row →
    RowRanked b.nodes.length node row
  cursor : b.cursor < b.nodes.length
  breaks : ∀ target ∈ b.breakTargets, ∀ a ∈ target, a < b.nodes.length
  labels : ∀ frame ∈ b.labelTargets, ∀ a ∈ frame.breaks, a < b.nodes.length

theorem ranked_initial : initial.Ranked := by
  refine ⟨rfl, rfl, ?_, by decide, by simp [initial], by simp [initial]⟩
  intro node row hrow
  have hrow' : row = .unreachable ∨ row = .start := by
    rcases node with _ | _ | node
    · exact .inl (by simpa [initial] using hrow.symm)
    · exact .inr (by simpa [initial] using hrow.symm)
    · simp [initial] at hrow
  rcases hrow' with rfl | rfl <;> constructor <;> simp [FlowNode.antecedents]

/-- The resolver can walk the graph. -/
theorem Ranked.ordered {b : Builder} (h : b.Ranked) (graph : FlowGraph)
    (hnodes : graph.nodes = b.nodes) : graph.Ordered := by
  refine ⟨hnodes ▸ h.unreachable, hnodes ▸ h.start, ?_⟩
  intro node row hrow hloop
  rw [hnodes] at hrow
  exact (h.rows node row hrow).earlier hloop

end Builder

/-- A label frame keeps its name and gets more breaks; its continue target is set once. -/
structure FrameGrown (frame frame' : LabelFrame) : Prop where
  name : frame'.name = frame.name
  allows : frame'.allowsContinue = frame.allowsContinue
  breaks : frame.breaks ⊆ frame'.breaks
  target : ∀ label, frame.continueTarget = some label → frame'.continueTarget = some label

theorem FrameGrown.refl (frame : LabelFrame) : FrameGrown frame frame :=
  ⟨rfl, rfl, fun _ h => h, fun _ h => h⟩

theorem FrameGrown.trans {first second third : LabelFrame} (h : FrameGrown first second)
    (h' : FrameGrown second third) : FrameGrown first third :=
  ⟨h'.name.trans h.name, h'.allows.trans h.allows, List.Subset.trans h.breaks h'.breaks,
    fun label hlabel => h'.target label (h.target label hlabel)⟩

theorem forall₂_trans {α : Type} (R : α → α → Prop) (hR : ∀ a b c, R a b → R b c → R a c)
    {first second third : List α} (h : List.Forall₂ R first second)
    (h' : List.Forall₂ R second third) : List.Forall₂ R first third := by
  induction h generalizing third with
  | nil => exact h'
  | cons hhead _ ih =>
    cases h' with
    | cons hhead' htail' => exact .cons (hR _ _ _ hhead hhead') (ih htail')

/-- What building a construct does to a ranked builder. -/
structure Grown (b b' : Builder) : Prop where
  nodes : NodesExtend b.nodes b'.nodes
  loops : b'.loops = b.loops
  breaks : List.Forall₂ (fun target target' => target ⊆ target') b.breakTargets b'.breakTargets
  labels : List.Forall₂ FrameGrown b.labelTargets b'.labelTargets
  references : b.references <:+ b'.references
  ranked : b'.Ranked

theorem forall₂_subset_refl (targets : List (List FlowNodeId)) :
    List.Forall₂ (fun target target' => target ⊆ target') targets targets :=
  forall₂_same.mpr (fun _ _ _ h => h)

theorem forall₂_frameGrown_refl (frames : List LabelFrame) :
    List.Forall₂ FrameGrown frames frames :=
  forall₂_same.mpr (fun frame _ => .refl frame)

namespace Grown

theorem refl {b : Builder} (h : b.Ranked) : Grown b b :=
  ⟨.refl _, rfl, forall₂_subset_refl _, forall₂_frameGrown_refl _, suffix_refl _, h⟩

theorem trans {b₁ b₂ b₃ : Builder} (h : Grown b₁ b₂) (h' : Grown b₂ b₃) : Grown b₁ b₃ where
  nodes := h.nodes.trans h'.nodes
  loops := h'.loops.trans h.loops
  breaks := forall₂_trans (fun (target target' : List FlowNodeId) => target ⊆ target')
    (fun _ _ _ ht ht' => List.Subset.trans ht ht') h.breaks h'.breaks
  labels := forall₂_trans FrameGrown (fun _ _ _ hf hf' => hf.trans hf') h.labels h'.labels
  references := h.references.trans h'.references
  ranked := h'.ranked

theorem length_le {b b' : Builder} (h : Grown b b') : b.nodes.length ≤ b'.nodes.length :=
  h.nodes.length_le

end Grown

/-! ## §3 The primitives -/

namespace Builder

variable {b : Builder}

theorem Ranked.unreachable_lt (h : b.Ranked) : FlowNodeId.unreachable < b.nodes.length :=
  (List.getElem?_eq_some_iff.mp h.unreachable).1

theorem Ranked.start_lt (h : b.Ranked) : FlowNodeId.start < b.nodes.length :=
  (List.getElem?_eq_some_iff.mp h.start).1

/-- A new node is no sentinel. -/
theorem Ranked.length_ne_unreachable (h : b.Ranked) : b.nodes.length ≠ FlowNodeId.unreachable :=
  Nat.ne_of_gt h.unreachable_lt

theorem grown_moveTo (hb : b.Ranked) {node : FlowNodeId} (h : node < b.nodes.length) :
    Grown b (b.moveTo node) where
  nodes := .refl _
  loops := rfl
  breaks := forall₂_subset_refl _
  labels := forall₂_frameGrown_refl _
  references := suffix_refl _
  ranked := ⟨hb.unreachable, hb.start, hb.rows, h, hb.breaks, hb.labels⟩

variable {row : FlowNode}

/-- One more row. -/
theorem grown_push (hb : b.Ranked) (origins : List (FlowNodeId × Occurrence))
    (h : RowRanked b.nodes.length b.nodes.length row) :
    Grown b { b with nodes := b.nodes ++ [row], origins := origins } where
  nodes := nodesExtend_append _ _
  loops := rfl
  breaks := forall₂_subset_refl _
  labels := forall₂_frameGrown_refl _
  references := suffix_refl _
  ranked := by
    have hlength : (b.nodes ++ [row]).length = b.nodes.length + 1 := by simp
    have hold : ∀ (node : Nat) (row' : FlowNode), b.nodes[node]? = some row' →
        (b.nodes ++ [row])[node]? = some row' := by
      intro node row' hrow
      rw [List.getElem?_append_left (List.getElem?_eq_some_iff.mp hrow).1]
      exact hrow
    refine ⟨hold _ _ hb.unreachable, hold _ _ hb.start, ?_, ?_, ?_, ?_⟩
    · intro node row' hrow
      dsimp only at hrow ⊢
      rw [hlength]
      rcases lt_or_ge node b.nodes.length with hlt | hge
      · rw [List.getElem?_append_left hlt] at hrow
        exact (hb.rows node row' hrow).mono (Nat.le_succ _)
      · obtain rfl : node = b.nodes.length := by
          have := (List.getElem?_eq_some_iff.mp hrow).1
          omega
        obtain rfl : row = row' := by simpa using hrow
        exact h.mono (Nat.le_succ _)
    · exact hlength ▸ Nat.lt_succ_of_lt hb.cursor
    · exact fun target ht a ha => hlength ▸ Nat.lt_succ_of_lt (hb.breaks target ht a ha)
    · exact fun frame hf a ha => hlength ▸ Nat.lt_succ_of_lt (hb.labels frame hf a ha)

/-- A row with one antecedent. -/
theorem rowRanked_single {antecedent : FlowNodeId} {length : Nat}
    (hrow : row.antecedents = [antecedent]) (hne : antecedent ≠ .unreachable)
    (hlt : antecedent < length) : RowRanked length length row := by
  constructor <;> simp [hrow, hne, hlt]

/-- An operation that makes a flow point. -/
structure GrownTo (b : Builder) (out : FlowNodeId × Builder) : Prop where
  grown : Grown b out.2
  lt : out.1 < out.2.nodes.length

theorem GrownTo.moveTo {out : FlowNodeId × Builder} (h : GrownTo b out) :
    Grown b (out.2.moveTo out.1) :=
  h.grown.trans (grown_moveTo h.grown.ranked h.lt)

theorem GrownTo.trans {b' : Builder} {out : FlowNodeId × Builder} (h : Grown b b')
    (h' : GrownTo b' out) : GrownTo b out :=
  ⟨h.trans h'.grown, h'.lt⟩

theorem grownTo_newFlowFor (hb : b.Ranked) (occurrence : Occurrence)
    (h : RowRanked b.nodes.length b.nodes.length row) :
    GrownTo b (b.newFlowFor row occurrence) :=
  ⟨grown_push hb _ h, by simp [newFlowFor]⟩

theorem grownTo_newFlow (hb : b.Ranked) (h : RowRanked b.nodes.length b.nodes.length row) :
    GrownTo b (b.newFlow row) :=
  ⟨grown_push hb b.origins h, by simp [newFlow]⟩

theorem grownTo_flowCondition (hb : b.Ranked) {antecedent : FlowNodeId} (fact : Option GuardFact)
    (thenBranch : Bool) (h : antecedent < b.nodes.length) :
    GrownTo b (b.flowCondition antecedent fact thenBranch) := by
  unfold flowCondition
  split
  · exact ⟨.refl hb, hb.unreachable_lt⟩
  · rename_i hne
    cases fact with
    | none => exact ⟨.refl hb, h⟩
    | some fact => exact grownTo_newFlowFor hb _ (rowRanked_single rfl hne h)

theorem cursor_flowCondition (antecedent : FlowNodeId) (fact : Option GuardFact) (thenBranch : Bool) :
    (b.flowCondition antecedent fact thenBranch).2.cursor = b.cursor := by
  unfold flowCondition
  split
  · rfl
  · split <;> rfl

theorem mem_insertSorted {node a : FlowNodeId} {nodes : List FlowNodeId} :
    a ∈ insertSorted node nodes ↔ a = node ∨ a ∈ nodes := by
  induction nodes with
  | nil => simp [insertSorted]
  | cons first rest ih =>
    unfold insertSorted
    split
    · simp
    · split
      · rename_i heq
        subst heq
        simp
      · simp only [mem_cons, ih]
        constructor
        · rintro (h | h | h)
          · exact .inr (.inl h)
          · exact .inl h
          · exact .inr (.inr h)
        · rintro (h | h | h)
          · exact .inr (.inl h)
          · exact .inl h
          · exact .inr (.inr h)

theorem mem_sortDedup {a : FlowNodeId} {nodes : List FlowNodeId} :
    a ∈ sortDedup nodes ↔ a ∈ nodes := by
  induction nodes with
  | nil => simp [sortDedup]
  | cons first rest ih =>
    show a ∈ insertSorted first (sortDedup rest) ↔ _
    rw [mem_insertSorted, ih, mem_cons]

/-- The antecedents of a join, without the unreachable ones. -/
theorem mem_joined {a : FlowNodeId} {antecedents : List FlowNodeId} :
    a ∈ sortDedup (antecedents.filter (fun a => a ≠ .unreachable)) ↔
      a ∈ antecedents ∧ a ≠ .unreachable := by
  rw [mem_sortDedup, mem_filter]
  simp

theorem grownTo_flowJoin (hb : b.Ranked) (antecedents : List FlowNodeId)
    (h : ∀ a ∈ antecedents, a < b.nodes.length) : GrownTo b (b.flowJoin antecedents) := by
  have hmem : ∀ a, a ∈ sortDedup (antecedents.filter (fun a => a ≠ .unreachable)) ↔
      a ∈ antecedents ∧ a ≠ .unreachable := fun a => mem_joined
  unfold flowJoin
  split
  · exact ⟨.refl hb, hb.unreachable_lt⟩
  · rename_i only heq
    exact ⟨.refl hb, h only ((hmem only).mp (heq ▸ mem_singleton_self only)).1⟩
  · refine grownTo_newFlow hb ⟨?_, ?_, ?_⟩
    · intro a ha
      exact ((hmem a).mp ha).2
    · intro a ha
      exact h a ((hmem a).mp ha).1
    · intro _ a ha
      exact h a ((hmem a).mp ha).1

theorem grown_joinAt (hb : b.Ranked) {antecedents : List FlowNodeId}
    (h : ∀ a ∈ antecedents, a < b.nodes.length) : Grown b (b.joinAt antecedents) :=
  (grownTo_flowJoin hb antecedents h).moveTo

theorem grownTo_flowJoin_pair (hb : b.Ranked) {first second : FlowNodeId}
    (hfirst : first < b.nodes.length) (hsecond : second < b.nodes.length) :
    GrownTo b (b.flowJoin [first, second]) := by
  refine grownTo_flowJoin hb [first, second] (fun a ha => ?_)
  rcases mem_cons.mp ha with rfl | ha
  · exact hfirst
  · exact mem_singleton.mp ha ▸ hsecond

theorem grown_joinAt_pair (hb : b.Ranked) {first second : FlowNodeId}
    (hfirst : first < b.nodes.length) (hsecond : second < b.nodes.length) :
    Grown b (b.joinAt [first, second]) :=
  (grownTo_flowJoin_pair hb hfirst hsecond).moveTo

theorem grown_assign (hb : b.Ranked) {symbol : SymbolId} {assigned : Option FlowType}
    {occurrence : Occurrence} (hne : b.cursor ≠ .unreachable) :
    Grown b (b.assign symbol assigned occurrence) :=
  (grownTo_newFlowFor hb occurrence (rowRanked_single rfl hne hb.cursor)).moveTo

/-- The cursor after an assignment is a new node. -/
theorem cursor_assign_ne (hb : b.Ranked) {symbol : SymbolId} {assigned : Option FlowType}
    {occurrence : Occurrence} :
    (b.assign symbol assigned occurrence).cursor ≠ .unreachable :=
  hb.length_ne_unreachable

theorem grown_pushBreak (hb : b.Ranked) : Grown b (b.pushBreak b.cursor) := by
  unfold pushBreak
  split
  · exact .refl hb
  · rename_i target rest heq
    refine ⟨.refl _, rfl, ?_, forall₂_frameGrown_refl _, suffix_refl _,
      hb.unreachable, hb.start, hb.rows, hb.cursor, ?_, hb.labels⟩
    · rw [heq]
      exact .cons (subset_append_left _ _) (forall₂_subset_refl _)
    · intro target' ht a ha
      rcases mem_cons.mp ht with rfl | ht
      · rcases mem_append.mp ha with ha | ha
        · exact hb.breaks target (by simp [heq]) a ha
        · rw [mem_singleton] at ha
          exact ha ▸ hb.cursor
      · exact hb.breaks target' (by simp [heq, ht]) a ha

theorem forall₂_addBreak (name : Name) (cursor : FlowNodeId) (frames : List LabelFrame) :
    List.Forall₂ FrameGrown frames (addBreak name cursor frames) := by
  induction frames with
  | nil => exact .nil
  | cons frame rest ih =>
    unfold addBreak
    split
    · exact .cons ⟨rfl, rfl, subset_append_left _ _, fun _ h => h⟩
        (forall₂_frameGrown_refl _)
    · exact .cons (.refl frame) ih

theorem mem_breaks_addBreak {name : Name} {cursor a : FlowNodeId} {frames : List LabelFrame}
    {frame : LabelFrame} (hframe : frame ∈ addBreak name cursor frames) (ha : a ∈ frame.breaks) :
    a = cursor ∨ ∃ old ∈ frames, a ∈ old.breaks := by
  induction frames with
  | nil => simp [addBreak] at hframe
  | cons first rest ih =>
    unfold addBreak at hframe
    split at hframe
    · rcases mem_cons.mp hframe with rfl | hframe
      · rcases mem_append.mp ha with ha | ha
        · exact .inr ⟨first, mem_cons_self, ha⟩
        · exact .inl (mem_singleton.mp ha)
      · exact .inr ⟨frame, mem_cons_of_mem _ hframe, ha⟩
    · rcases mem_cons.mp hframe with rfl | hframe
      · exact .inr ⟨frame, mem_cons_self, ha⟩
      · rcases ih hframe with h | ⟨old, hold, h⟩
        · exact .inl h
        · exact .inr ⟨old, mem_cons_of_mem _ hold, h⟩

theorem grown_addLabeledBreak (hb : b.Ranked) (name : Name) :
    Grown b (b.addLabeledBreak name b.cursor) where
  nodes := .refl _
  loops := rfl
  breaks := forall₂_subset_refl _
  labels := forall₂_addBreak name b.cursor b.labelTargets
  references := suffix_refl _
  ranked := by
    refine ⟨hb.unreachable, hb.start, hb.rows, hb.cursor, hb.breaks, ?_⟩
    intro frame hframe a ha
    rcases mem_breaks_addBreak hframe ha with rfl | ⟨old, hold, ha⟩
    · exact hb.cursor
    · exact hb.labels old hold a ha

theorem mem_antecedents_withBackEdge {edge a : FlowNodeId}
    (h : a ∈ (withBackEdge edge row).antecedents) : a = edge ∨ a ∈ row.antecedents := by
  cases row with
  | loopLabel pre back =>
    simp only [withBackEdge, FlowNode.antecedents, mem_append, mem_singleton] at h ⊢
    rcases h with h | h | h
    · exact .inr (.inl h)
    · exact .inr (.inr h)
    · exact .inl h
  | _ => exact .inr h

/-- The rows after a back edge was added: the old ones, or the label with its new edge. -/
theorem rows_modify {nodes : List FlowNode} {label edge : FlowNodeId} {node : Nat}
    (h : (nodes.modify label (withBackEdge edge))[node]? = some row) :
    nodes[node]? = some row ∨ ∃ old, nodes[node]? = some old ∧ row = withBackEdge edge old := by
  rw [getElem?_modify] at h
  cases hold : nodes[node]? with
  | none => simp [hold] at h
  | some old =>
    by_cases heq : label = node
    · exact .inr ⟨old, rfl, by simpa [hold, heq] using h.symm⟩
    · exact .inl (by simpa [hold, heq] using h)

theorem sentinel_modify {nodes : List FlowNode} (label edge : FlowNodeId) {node : Nat}
    (hloop : ∀ pre back, row ≠ .loopLabel pre back)
    (h : nodes[node]? = some row) :
    (nodes.modify label (withBackEdge edge))[node]? = some row := by
  obtain ⟨row', hrow', hext⟩ := nodesExtend_modify nodes label edge node row h
  rcases hext with rfl | ⟨pre, back, _, rfl, -⟩
  · exact hrow'
  · exact absurd rfl (hloop pre back)

theorem grown_addBackEdge (hb : b.Ranked) (label : FlowNodeId) {edge : FlowNodeId}
    (h : edge < b.nodes.length) : Grown b (b.addBackEdge label edge) := by
  unfold addBackEdge
  split
  · exact .refl hb
  rename_i hne
  have hlength : (b.nodes.modify label (withBackEdge edge)).length = b.nodes.length :=
    length_modify ..
  refine ⟨nodesExtend_modify _ _ _, rfl, forall₂_subset_refl _, forall₂_frameGrown_refl _,
    suffix_refl _, sentinel_modify _ _ (by simp) hb.unreachable,
    sentinel_modify _ _ (by simp) hb.start, ?_, hlength ▸ hb.cursor, ?_, ?_⟩
  · intro node row hnode
    show RowRanked (b.nodes.modify label (withBackEdge edge)).length node row
    rw [hlength]
    rcases rows_modify hnode with hold | ⟨old, hold, rfl⟩
    · exact hb.rows node row hold
    have hranks := hb.rows node old hold
    refine ⟨?_, ?_, ?_⟩
    · intro a ha
      rcases mem_antecedents_withBackEdge ha with rfl | ha
      · exact hne
      · exact hranks.reachable a ha
    · intro a ha
      rcases mem_antecedents_withBackEdge ha with rfl | ha
      · exact h
      · exact hranks.exists_ a ha
    · intro hloop a ha
      cases old with
      | loopLabel pre back => exact absurd rfl (hloop pre (back ++ [edge]))
      | _ => exact hranks.earlier (by simp) a ha
  · exact fun target ht a ha => hlength ▸ hb.breaks target ht a ha
  · exact fun frame hf a ha => hlength ▸ hb.labels frame hf a ha

theorem forall₂_setContinueTargets (label : FlowNodeId) (frames : List LabelFrame) :
    List.Forall₂ FrameGrown frames (setContinueTargets label frames) := by
  induction frames with
  | nil => exact .nil
  | cons frame rest ih =>
    unfold setContinueTargets
    split
    · refine .cons ⟨rfl, rfl, fun _ h => h, ?_⟩ ih
      intro target htarget
      simp [htarget]
    · exact forall₂_frameGrown_refl _

theorem breaks_setContinueTargets {label : FlowNodeId} {frames : List LabelFrame}
    {frame : LabelFrame} (h : frame ∈ setContinueTargets label frames) :
    ∃ old ∈ frames, frame.breaks = old.breaks := by
  induction frames with
  | nil => simp [setContinueTargets] at h
  | cons first rest ih =>
    unfold setContinueTargets at h
    split at h
    · rcases mem_cons.mp h with rfl | h
      · exact ⟨first, mem_cons_self, rfl⟩
      · obtain ⟨old, hold, heq⟩ := ih h
        exact ⟨old, mem_cons_of_mem _ hold, heq⟩
    · exact ⟨frame, h, rfl⟩

theorem grown_setContinueTargets (hb : b.Ranked) (label : FlowNodeId) :
    Grown b { b with labelTargets := setContinueTargets label b.labelTargets } where
  nodes := .refl _
  loops := rfl
  breaks := forall₂_subset_refl _
  labels := forall₂_setContinueTargets label b.labelTargets
  references := suffix_refl _
  ranked := by
    refine ⟨hb.unreachable, hb.start, hb.rows, hb.cursor, hb.breaks, ?_⟩
    intro frame hframe a ha
    obtain ⟨old, hold, heq⟩ := breaks_setContinueTargets hframe
    exact hb.labels old hold a (heq ▸ ha)

theorem ranked_fresh (hb : b.Ranked) : b.fresh.Ranked :=
  ⟨hb.unreachable, hb.start, hb.rows, hb.start_lt, by simp [fresh], by simp [fresh]⟩

/-- A body in its own flow: the stacks of the surroundings are untouched. -/
theorem grown_boundary (hb : b.Ranked) {build : Builder → Builder}
    (h : Grown b.fresh (build b.fresh)) : Grown b (b.boundary build) := by
  have hle := h.length_le
  refine ⟨h.nodes, rfl, forall₂_subset_refl _, forall₂_frameGrown_refl _, h.references,
    h.ranked.unreachable, h.ranked.start, h.ranked.rows, ?_, ?_, ?_⟩
  · exact hb.cursor.trans_le hle
  · exact fun target ht a ha => (hb.breaks target ht a ha).trans_le hle
  · exact fun frame hf a ha => (hb.labels frame hf a ha).trans_le hle

end Builder

/-! ## §4 Expressions -/

/-- Both modes of an expression grow a ranked builder. -/
structure GrownModes (modes : Modes) : Prop where
  value : ∀ b : Builder, b.Ranked → Grown b (modes.value b)
  condition : ∀ b : Builder, b.Ranked → Grown b (modes.condition b).2
  edges : ∀ b : Builder, b.Ranked →
    (modes.condition b).1.1 < (modes.condition b).2.nodes.length ∧
      (modes.condition b).1.2 < (modes.condition b).2.nodes.length

theorem grownModes_leaf {env : FlowEnv} {scope : Scope} {expr : Expr} {value : Builder → Builder}
    (h : ∀ b : Builder, b.Ranked → Grown b (value b)) :
    GrownModes (.leaf env scope expr value) := by
  have hfirst : ∀ b : Builder, b.Ranked → Builder.GrownTo (value b)
      ((value b).flowCondition (value b).cursor (analyzeGuard env scope expr) true) :=
    fun b hb => grownTo_flowCondition (h b hb).ranked _ _ (h b hb).ranked.cursor
  have hsecond : ∀ b : Builder, b.Ranked → Builder.GrownTo
      ((value b).flowCondition (value b).cursor (analyzeGuard env scope expr) true).2
      (((value b).flowCondition (value b).cursor (analyzeGuard env scope expr) true).2.flowCondition
        (value b).cursor (analyzeGuard env scope expr) false) := by
    intro b hb
    have hcursor := (hfirst b hb).grown.ranked.cursor
    rw [cursor_flowCondition] at hcursor
    exact grownTo_flowCondition (hfirst b hb).grown.ranked _ _ hcursor
  refine ⟨h, fun b hb => ((h b hb).trans (hfirst b hb).grown).trans (hsecond b hb).grown, ?_⟩
  intro b hb
  exact ⟨(hfirst b hb).lt.trans_le (hsecond b hb).grown.length_le, (hsecond b hb).lt⟩

section Logical

variable {left right : Modes} (hleft : GrownModes left) (hright : GrownModes right)
include hleft hright

/-- One operand after the other, the second from an edge of the first. -/
theorem GrownModes.andThen {b : Builder} (hb : b.Ranked) {edge : FlowNodeId}
    (hedge : edge < (left.condition b).2.nodes.length) :
    Grown b (right.condition ((left.condition b).2.moveTo edge)).2 ∧
      Grown (left.condition b).2 (right.condition ((left.condition b).2.moveTo edge)).2 := by
  have h := hleft.condition b hb
  have hmove := grown_moveTo h.ranked hedge
  have h' := hmove.trans (hright.condition _ hmove.ranked)
  exact ⟨h.trans h', h'⟩

theorem grown_conditionLogical (op : LogicalOperator) {b : Builder} (hb : b.Ranked) :
    Grown b (conditionLogical op left right b).2 ∧
      (conditionLogical op left right b).1.1 < (conditionLogical op left right b).2.nodes.length ∧
      (conditionLogical op left right b).1.2 < (conditionLogical op left right b).2.nodes.length := by
  cases op with
  | and =>
    obtain ⟨hlt, hlf⟩ := hleft.edges b hb
    obtain ⟨hgrown, hlater⟩ := hleft.andThen hright hb hlt
    have hedges := hright.edges _
      (grown_moveTo (hleft.condition b hb).ranked hlt).ranked
    have hjoin := grownTo_flowJoin_pair hgrown.ranked (hlf.trans_le hlater.length_le) hedges.2
    exact ⟨hgrown.trans hjoin.grown, hedges.1.trans_le hjoin.grown.length_le, hjoin.lt⟩
  | or =>
    obtain ⟨hlt, hlf⟩ := hleft.edges b hb
    obtain ⟨hgrown, hlater⟩ := hleft.andThen hright hb hlf
    have hedges := hright.edges _
      (grown_moveTo (hleft.condition b hb).ranked hlf).ranked
    have hjoin := grownTo_flowJoin_pair hgrown.ranked (hlt.trans_le hlater.length_le) hedges.1
    exact ⟨hgrown.trans hjoin.grown, hjoin.lt, hedges.2.trans_le hjoin.grown.length_le⟩
  | coalesce =>
    have h := hleft.value b hb
    have h' := hright.value _ h.ranked
    have hjoin := grownTo_flowJoin_pair h'.ranked (h.ranked.cursor.trans_le h'.length_le)
      h'.ranked.cursor
    exact ⟨(h.trans h').trans hjoin.grown, hjoin.lt, hjoin.lt⟩

theorem grownModes_logical (op : LogicalOperator) :
    GrownModes ⟨valueLogical op left right, conditionLogical op left right⟩ := by
  have h := fun (b : Builder) (hb : b.Ranked) => grown_conditionLogical hleft hright op hb
  refine ⟨?_, fun b hb => (h b hb).1, fun b hb => (h b hb).2⟩
  intro b hb
  obtain ⟨hgrown, htrue, hfalse⟩ := h b hb
  exact hgrown.trans (grown_joinAt_pair hgrown.ranked htrue hfalse)

end Logical

theorem grown_resetIdentifier (scope : Scope) (span : Span) (name : Name) {b : Builder}
    (hb : b.Ranked) (hne : b.cursor ≠ .unreachable) :
    Grown b (resetIdentifier scope span name b) ∧
      (resetIdentifier scope span name b).cursor ≠ .unreachable := by
  unfold resetIdentifier
  split
  · exact ⟨grown_assign hb hne, cursor_assign_ne hb⟩
  · exact ⟨.refl hb, hne⟩

/-- Storing into targets keeps the flow reachable.  Induction along the patterns. -/
theorem grown_resetTargets (scope : Scope) :
    (∀ (target : Expr) (b : Builder), b.Ranked → b.cursor ≠ .unreachable →
      Grown b (resetPatternTargets scope target b) ∧
        (resetPatternTargets scope target b).cursor ≠ .unreachable) ∧
    ∀ (targets : List Expr) (b : Builder), b.Ranked → b.cursor ≠ .unreachable →
      Grown b (resetAllTargets scope targets b) ∧
        (resetAllTargets scope targets b).cursor ≠ .unreachable := by
  refine resetPatternTargets.mutual_induct scope _ _ ?identifier ?array ?object ?default ?other
    ?nil ?cons
  case identifier =>
    intro span name b hb hne
    rw [resetPatternTargets]
    exact grown_resetIdentifier scope span name hb hne
  case array | object | default =>
    intros
    rw [resetPatternTargets]
    solve_by_elim
  case other =>
    intro target b hidentifier harray hobject hdefault hb hne
    rw [resetPatternTargets]
    · exact ⟨.refl hb, hne⟩
    all_goals assumption
  case nil => exact fun b hb hne => ⟨.refl hb, hne⟩
  case cons =>
    intro target rest b ih ihRest hb hne
    obtain ⟨h, hne'⟩ := ih hb hne
    obtain ⟨h', hne''⟩ := ihRest h.ranked hne'
    exact ⟨h.trans h', hne''⟩

theorem grown_assignTarget (env : FlowEnv) (scope : Scope) (op : AssignmentOperator)
    (target right : Expr) {b : Builder} (hb : b.Ranked) :
    Grown b (assignTarget env scope op target right b) := by
  unfold assignTarget
  split
  · exact .refl hb
  · rename_i hne
    split
    · split
      · exact .refl hb
      · exact grown_assign hb hne
    · exact ((grown_resetTargets scope).1 target b hb hne).1

/-! ## §5 Statements -/

section Constructs

variable {b : Builder}

/-- A body that grows every ranked builder. -/
def GrowsAll (build : Builder → Builder) : Prop := ∀ b : Builder, b.Ranked → Grown b (build b)

/-- Two bodies from the two edges of a condition, then their join. -/
theorem grown_buildFlowIf {test : Modes} {consequent alternate : Builder → Builder}
    (htest : GrownModes test) (hconsequent : GrowsAll consequent) (halternate : GrowsAll alternate)
    (hb : b.Ranked) : Grown b (buildFlowIf test consequent alternate b) := by
  have h := htest.condition b hb
  obtain ⟨hthen, helse⟩ := htest.edges b hb
  have hmove := grown_moveTo h.ranked hthen
  have h₁ := hmove.trans (hconsequent _ hmove.ranked)
  have hmove₁ := grown_moveTo h₁.ranked (helse.trans_le h₁.length_le)
  have h₂ := hmove₁.trans (halternate _ hmove₁.ranked)
  exact ((h.trans h₁).trans h₂).trans
    (grown_joinAt_pair h₂.ranked (h₁.ranked.cursor.trans_le h₂.length_le) h₂.ranked.cursor)

theorem grown_openLoop (hb : b.Ranked) (hne : b.cursor ≠ .unreachable) :
    Grown b b.openLoop := by
  have hnew : Builder.GrownTo b (b.newFlow (.loopLabel [b.cursor] [])) :=
    grownTo_newFlow hb (rowRanked_single rfl hne hb.cursor)
  exact hnew.moveTo.trans (grown_setContinueTargets hnew.moveTo.ranked _)

theorem Builder.Ranked.pushLoop (hb : b.Ranked) (label : FlowNodeId) {cursor : FlowNodeId}
    (hcursor : cursor < b.nodes.length) : (b.pushLoop label cursor).Ranked := by
  refine ⟨hb.unreachable, hb.start, hb.rows, hcursor, ?_, hb.labels⟩
  intro target ht
  rcases mem_cons.mp ht with rfl | ht
  · simp
  · exact hb.breaks target ht

/-- Popping the innermost break frame. -/
theorem forall₂_popBreaks {pushed : List FlowNodeId} {targets targets' : List (List FlowNodeId)}
    (h : List.Forall₂ (fun target target' => target ⊆ target') (pushed :: targets) targets') :
    List.Forall₂ (fun target target' => target ⊆ target') targets targets'.tail := by
  cases h with
  | cons _ hrest => exact hrest

/-- The frames of a loop body are popped after it is built. -/
theorem Grown.popLoop {label cursor : FlowNodeId} {last : Builder}
    (h : Grown (b.pushLoop label cursor) last) : Grown b last.popLoop := by
  refine ⟨h.nodes, ?_, forall₂_popBreaks h.breaks, h.labels, h.references, h.ranked.unreachable,
    h.ranked.start, h.ranked.rows, h.ranked.cursor, ?_, h.ranked.labels⟩
  · show last.loops.tail = b.loops
    rw [h.loops]
    rfl
  · exact fun target ht a ha => h.ranked.breaks target (mem_of_mem_tail ht) a ha

theorem Builder.Ranked.pushSwitch (hb : b.Ranked) : b.pushSwitch.Ranked := by
  refine ⟨hb.unreachable, hb.start, hb.rows, hb.cursor, ?_, hb.labels⟩
  intro target ht
  rcases mem_cons.mp ht with rfl | ht
  · simp
  · exact hb.breaks target ht

theorem Grown.popSwitch {last : Builder} (h : Grown b.pushSwitch last) : Grown b last.popSwitch := by
  refine ⟨h.nodes, h.loops, forall₂_popBreaks h.breaks, h.labels, h.references,
    h.ranked.unreachable, h.ranked.start, h.ranked.rows, h.ranked.cursor, ?_, h.ranked.labels⟩
  exact fun target ht a ha => h.ranked.breaks target (mem_of_mem_tail ht) a ha

theorem Builder.Ranked.pushLabel (hb : b.Ranked) (label : Name) (allowsContinue : Bool) :
    (b.pushLabel label allowsContinue).Ranked := by
  refine ⟨hb.unreachable, hb.start, hb.rows, hb.cursor, hb.breaks, ?_⟩
  intro frame hframe
  rcases mem_cons.mp hframe with rfl | hframe
  · simp
  · exact hb.labels frame hframe

section TopLabel

variable {label : Name} {allowsContinue : Bool} {last : Builder}
  (h : Grown (b.pushLabel label allowsContinue) last)
include h

/-- The frame of a label is still on top when its statement is built. -/
theorem Grown.topLabel :
    ∃ frame rest, last.labelTargets = frame :: rest ∧ frame.name = label ∧
      last.labelBreaks = frame.breaks ∧ List.Forall₂ FrameGrown b.labelTargets rest := by
  have hlabels := h.labels
  unfold pushLabel at hlabels
  cases hlast : last.labelTargets with
  | nil => simp [hlast] at hlabels
  | cons frame rest =>
    rw [hlast] at hlabels
    cases hlabels with
    | cons hframe hrest =>
      exact ⟨frame, rest, rfl, hframe.name, by simp [labelBreaks, hlast], hrest⟩

theorem Grown.popLabel : Grown b last.popLabel := by
  refine ⟨h.nodes, h.loops, h.breaks, ?_, h.references, h.ranked.unreachable, h.ranked.start,
    h.ranked.rows, h.ranked.cursor, h.ranked.breaks, ?_⟩
  · obtain ⟨frame, rest, hlast, -, -, hrest⟩ := h.topLabel
    show List.Forall₂ FrameGrown b.labelTargets last.labelTargets.tail
    rw [hlast]
    exact hrest
  · exact fun frame hframe a ha => h.ranked.labels frame (mem_of_mem_tail hframe) a ha

end TopLabel

theorem Builder.Ranked.topBreaks_lt (hb : b.Ranked) {a : FlowNodeId} (ha : a ∈ b.topBreaks) :
    a < b.nodes.length := by
  unfold topBreaks at ha
  cases htargets : b.breakTargets with
  | nil => simp [htargets] at ha
  | cons target rest =>
    rw [htargets] at ha
    exact hb.breaks target (by simp [htargets]) a ha

theorem grown_buildFlowWhile {test : Modes} {body : Builder → Builder} (htest : GrownModes test)
    (hbody : GrowsAll body) (hb : b.Ranked) : Grown b (buildFlowWhile test body b) := by
  unfold buildFlowWhile
  split
  · exact .refl hb
  rename_i hne
  have hopen := grown_openLoop hb hne
  have h := htest.condition _ hopen.ranked
  obtain ⟨htrue, hfalse⟩ := htest.edges _ hopen.ranked
  have hgrown := hbody _ (h.ranked.pushLoop b.nodes.length htrue)
  have hback := hgrown.trans
    (grown_addBackEdge hgrown.ranked b.nodes.length hgrown.ranked.cursor)
  have hpopped := hback.popLoop
  refine (hopen.trans h).trans (hpopped.trans (grown_joinAt hpopped.ranked ?_))
  intro a ha
  rcases mem_cons.mp ha with rfl | ha
  · exact hfalse.trans_le hpopped.length_le
  · exact hback.ranked.topBreaks_lt ha

theorem grown_buildFlowLabeled {body : Builder → Builder} (hbody : GrowsAll body) (hb : b.Ranked)
    (label : Name) (allowsContinue : Bool) :
    Grown b (buildFlowLabeled label allowsContinue body b) := by
  have hgrown := hbody _ (hb.pushLabel label allowsContinue)
  refine hgrown.popLabel.trans (grown_joinAt hgrown.popLabel.ranked ?_)
  intro a ha
  rcases mem_cons.mp ha with rfl | ha
  · exact hgrown.ranked.cursor
  · obtain ⟨frame, rest, hlast, -, hbreaks, -⟩ := hgrown.topLabel
    rw [hbreaks] at ha
    exact hgrown.ranked.labels frame (by simp [hlast]) a ha

theorem grown_buildFlowBreak (hb : b.Ranked) (label : Option Name) :
    Grown b (buildFlowBreak label b) := by
  cases label with
  | none =>
    have h := grown_pushBreak hb
    exact h.trans (grown_moveTo h.ranked h.ranked.unreachable_lt)
  | some name =>
    have h := grown_addLabeledBreak hb name
    exact h.trans (grown_moveTo h.ranked h.ranked.unreachable_lt)

theorem grown_buildFlowContinue (hb : b.Ranked) (label : Option Name) :
    Grown b (buildFlowContinue label b) := by
  have hmoved : ∀ {final}, Grown b final → Grown b (final.moveTo FlowNodeId.unreachable) :=
    fun h => h.trans (grown_moveTo h.ranked h.ranked.unreachable_lt)
  unfold buildFlowContinue
  dsimp only
  apply hmoved
  split
  · exact grown_addBackEdge hb _ hb.cursor
  · exact .refl hb

/-- The chain of negated labels. -/
theorem grownTo_negations (symbol : SymbolId) (property : Name) (occurrence : Occurrence)
    (labels : List TypeId) (entry : FlowNodeId × Builder) (hne : entry.1 ≠ .unreachable)
    (h : Builder.GrownTo b entry) :
    Builder.GrownTo b (labels.foldl
      (fun entry literal => entry.2.newFlowFor
        (.condition symbol (.discriminant property literal) false entry.1) occurrence)
      entry) := by
  induction labels generalizing entry with
  | nil => exact h
  | cons literal labels ih =>
    refine ih _ h.grown.ranked.length_ne_unreachable ?_
    exact Builder.GrownTo.trans h.grown (grownTo_newFlowFor h.grown.ranked _
      (rowRanked_single rfl hne h.lt))

theorem grownTo_switchCaseEntry (env : FlowEnv) {pre : FlowNodeId}
    (discriminant : Option (SymbolId × Name × Occurrence)) (labels : List TypeId)
    (clause : Clause) (hb : b.Ranked) (hpre : pre < b.nodes.length) :
    Builder.GrownTo b (switchCaseEntry env pre discriminant labels clause b) := by
  unfold switchCaseEntry
  split
  · exact ⟨.refl hb, hb.unreachable_lt⟩
  rename_i hne
  split
  · exact ⟨.refl hb, hpre⟩
  split
  · split
    · exact grownTo_newFlowFor hb _ (rowRanked_single rfl hne hpre)
    · exact ⟨.refl hb, hpre⟩
  · exact grownTo_negations _ _ _ labels (pre, b) hne ⟨.refl hb, hpre⟩

/-- The edge that falls through ends where the clause does. -/
theorem lt_of_fellThrough (hb : b.Ranked) {leaves : Prop} [Decidable leaves] {prevEnd : FlowNodeId}
    (h : (if leaves then none else some b.cursor) = some prevEnd) : prevEnd < b.nodes.length := by
  split_ifs at h
  cases h
  exact hb.cursor

theorem grown_enterClause {fellThrough : Option FlowNodeId} {direct : FlowNodeId} (hb : b.Ranked)
    (hdirect : direct < b.nodes.length)
    (hfell : ∀ prevEnd, fellThrough = some prevEnd → prevEnd < b.nodes.length) :
    Grown b (enterClause fellThrough direct b) := by
  cases fellThrough with
  | none => exact grown_moveTo hb hdirect
  | some prevEnd => exact grown_joinAt_pair hb (hfell prevEnd rfl) hdirect

/-- One clause: its entry and its statements. -/
theorem grown_clause (env : FlowEnv) {pre : FlowNodeId}
    (discriminant : Option (SymbolId × Name × Occurrence)) (labels : List TypeId)
    (clause : Clause) {consequent : Builder → Builder} (hconsequent : GrowsAll consequent)
    {fellThrough : Option FlowNodeId} (hb : b.Ranked) (hpre : pre < b.nodes.length)
    (hfell : ∀ prevEnd, fellThrough = some prevEnd → prevEnd < b.nodes.length) :
    Grown b (consequent (enterClause fellThrough
      (switchCaseEntry env pre discriminant labels clause b).1
      (switchCaseEntry env pre discriminant labels clause b).2)) := by
  have hentry := grownTo_switchCaseEntry env discriminant labels clause hb hpre
  have henter := hentry.grown.trans (grown_enterClause hentry.grown.ranked hentry.lt
    (fun prevEnd h => (hfell prevEnd h).trans_le hentry.grown.length_le))
  exact henter.trans (hconsequent _ henter.ranked)

theorem grown_buildFlowSwitch {discriminant : Modes} {clauses : FlowNodeId → Builder → Builder}
    (hdiscriminant : GrownModes discriminant)
    (hclauses : ∀ (b : Builder) (pre : FlowNodeId), b.Ranked → pre < b.nodes.length →
      Grown b (clauses pre b))
    (hasDefault : Bool) (hb : b.Ranked) :
    Grown b (buildFlowSwitch discriminant clauses hasDefault b) := by
  have h := hdiscriminant.value b hb
  have hgrown := hclauses _ (discriminant.value b).cursor h.ranked.pushSwitch h.ranked.cursor
  refine (h.trans hgrown.popSwitch).trans (grown_joinAt hgrown.popSwitch.ranked ?_)
  intro a ha
  rcases mem_cons.mp ha with rfl | ha
  · exact hgrown.ranked.cursor
  rcases mem_append.mp ha with ha | ha
  · exact hgrown.ranked.topBreaks_lt ha
  · cases hasDefault with
    | true => simp at ha
    | false =>
      rw [mem_singleton.mp ha]
      exact h.ranked.cursor.trans_le hgrown.length_le

end Constructs

/-! ## §6 The syntax -/

theorem growsAll_boundary {build : Builder → Builder} (h : GrowsAll build) :
    GrowsAll (boundary build) :=
  fun _ hb => grown_boundary hb (h _ (ranked_fresh hb))

/-- Two builds, one after the other. -/
theorem GrowsAll.andThen {first second : Builder → Builder} (h : GrowsAll first)
    (h' : GrowsAll second) : GrowsAll (fun b => second (first b)) :=
  fun b hb => (h b hb).trans (h' _ (h b hb).ranked)

theorem growsAll_recordReference (span : Span) :
    GrowsAll (fun b => { b with references := (span, b.cursor) :: b.references }) :=
  fun _ hb => ⟨.refl _, rfl, forall₂_subset_refl _, forall₂_frameGrown_refl _,
    suffix_cons _ _, hb.unreachable, hb.start, hb.rows, hb.cursor, hb.breaks, hb.labels⟩

/-- `!` swaps the edges. -/
theorem grownModes_not {argument : Modes} (h : GrownModes argument) :
    GrownModes ⟨argument.value, fun b =>
      let ((trueFlow, falseFlow), b) := argument.condition b
      ((falseFlow, trueFlow), b)⟩ :=
  ⟨h.value, h.condition, fun b hb => (h.edges b hb).symm⟩

mutual

theorem grownModes_build {env : FlowEnv} {scope : Scope} :
    ∀ expr : Expr, GrownModes (buildModes env scope expr)
  | .identifier span name => by
    rw [buildModes]
    exact grownModes_leaf (growsAll_recordReference span)
  | .paren inner => by
    rw [buildModes]
    exact grownModes_build inner
  | .logical op left right => by
    rw [buildModes]
    exact grownModes_logical (grownModes_build left) (grownModes_build right) op
  | .conditional test consequent alternate => by
    rw [buildModes]
    exact grownModes_leaf (fun b hb =>
      grown_buildFlowIf (grownModes_build test)
        (grownModes_build consequent).value
        (grownModes_build alternate).value hb)
  | .assignment op target right => by
    rw [buildModes]
    exact grownModes_leaf (GrowsAll.andThen (grownModes_build right).value
      (fun b hb => grown_assignTarget env scope op target right hb))
  | .unary .logicalNot argument => by
    rw [buildModes]
    exact grownModes_not (grownModes_build argument)
  | .unary .typeof argument => by
    rw [buildModes]
    · exact grownModes_leaf (grownModes_build argument).value
    · simp
  | .unary .other argument => by
    rw [buildModes]
    · exact grownModes_leaf (grownModes_build argument).value
    · simp
  | .binary op left right => by
    rw [buildModes]
    exact grownModes_leaf (GrowsAll.andThen (grownModes_build left).value
      (grownModes_build right).value)
  | .staticMember object property optional => by
    rw [buildModes]
    exact grownModes_leaf (grownModes_build object).value
  | .operands form parts => by
    rw [buildModes]
    exact grownModes_leaf (grown_exprs parts)
  | .function inner params body => by
    rw [buildModes]
    exact grownModes_leaf (growsAll_boundary (grown_stmts body))
  | .arrow inner params body => by
    rw [buildModes]
    exact grownModes_leaf
      (growsAll_boundary (grownModes_build body).value)
  | .initializer _ value => by
    rw [buildModes]
    exact grownModes_leaf (growsAll_boundary (grownModes_build value).value)
  | .literal _ | .null | .update _ | .unbuilt _ => grownModes_leaf (fun _ hb => .refl hb)

theorem grown_exprs {env : FlowEnv} {scope : Scope} :
    ∀ exprs : List Expr, GrowsAll (buildExprs env scope exprs)
  | [] => fun _ hb => .refl hb
  | expr :: rest => by
    intro b hb
    rw [buildExprs]
    exact GrowsAll.andThen (grownModes_build expr).value (grown_exprs rest) b hb

theorem grown_stmt {env : FlowEnv} {scope : Scope} :
    ∀ stmt : Stmt, GrowsAll (buildStmt env scope stmt)
  | .declaration _ _ init => by
    intro b hb
    rw [buildStmt]
    exact (grownModes_build init).value b hb
  | .function _ inner _ body => by
    intro b hb
    rw [buildStmt]
    exact growsAll_boundary (grown_stmts body) b hb
  | .class _ elements => by
    intro b hb
    rw [buildStmt]
    exact grown_exprs elements b hb
  | .expression expr => by
    intro b hb
    rw [buildStmt]
    exact (grownModes_build expr).value b hb
  | .return argument => by
    intro b hb
    rw [buildStmt]
    exact (grown_exprs argument).andThen
      (fun _ hb => grown_moveTo hb hb.unreachable_lt) b hb
  | .throw argument => by
    intro b hb
    rw [buildStmt]
    exact GrowsAll.andThen (grownModes_build argument).value
      (fun _ hb => grown_moveTo hb hb.unreachable_lt) b hb
  | .ite test consequent alternate => by
    intro b hb
    rw [buildStmt]
    exact grown_buildFlowIf (grownModes_build test)
      (grown_stmt consequent) (grown_stmt alternate) hb
  | .block inner body => by
    intro b hb
    rw [buildStmt]
    exact grown_stmts body b hb
  | .switch _ discriminant clauses => by
    intro b hb
    rw [buildStmt]
    refine grown_buildFlowSwitch (grownModes_build discriminant) ?_
      (hasDefault clauses) hb
    exact fun b pre hb hpre => grown_clauses pre (memberDiscriminant scope discriminant)
      (caseLabels env clauses) clauses none b hb hpre (by simp)
  | .while test body => by
    intro b hb
    rw [buildStmt]
    exact grown_buildFlowWhile (grownModes_build test)
      (grown_stmt body) hb
  | .labeled label body => by
    intro b hb
    rw [buildStmt]
    exact grown_buildFlowLabeled (grown_stmt body) hb label
      (labeledStatementAllowsContinue body)
  | .break label => by
    intro b hb
    rw [buildStmt]
    exact grown_buildFlowBreak hb label
  | .continue label => by
    intro b hb
    rw [buildStmt]
    exact grown_buildFlowContinue hb label
  | .empty | .variable _ _ | .unbuilt _ _ _ _ _ => fun _ hb => .refl hb

/-- **Building statements grows the builder.** -/
theorem grown_stmts {env : FlowEnv} {scope : Scope} :
    ∀ stmts : List Stmt, GrowsAll (buildStmts env scope stmts)
  | [] => fun _ hb => .refl hb
  | stmt :: rest => by
    intro b hb
    rw [buildStmts]
    exact (grown_stmt stmt).andThen (grown_stmts rest) b hb

theorem grown_clauses {env : FlowEnv} {scope : Scope} (pre : FlowNodeId)
    (discriminant : Option (SymbolId × Name × Occurrence)) (labels : List TypeId) :
    ∀ (clauses : List Clause) (fellThrough : Option FlowNodeId) (b : Builder), b.Ranked →
      pre < b.nodes.length →
      (∀ prevEnd, fellThrough = some prevEnd → prevEnd < b.nodes.length) →
      Grown b (buildClauses env scope pre discriminant labels clauses fellThrough b)
  | [], _, _, hb, _, _ => .refl hb
  | .case test consequent :: rest, fellThrough, b, hb, hpre, hfell => by
    unfold buildClauses
    have h := grown_clause env discriminant labels (.case test consequent)
      (@grown_stmts env scope consequent) hb hpre hfell
    exact h.trans (grown_clauses pre discriminant labels rest _ _ h.ranked
      (hpre.trans_le h.length_le) (fun _ => lt_of_fellThrough h.ranked))
  | .default consequent :: rest, fellThrough, b, hb, hpre, hfell => by
    unfold buildClauses
    have h := grown_clause env discriminant labels (.default consequent)
      (@grown_stmts env scope consequent) hb hpre hfell
    exact h.trans (grown_clauses pre discriminant labels rest _ _ h.ranked
      (hpre.trans_le h.length_le) (fun _ => lt_of_fellThrough h.ranked))

end

end Typokat.Check
