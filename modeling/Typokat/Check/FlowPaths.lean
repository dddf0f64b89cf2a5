import Typokat.Check.FlowGrowth
import Typokat.Check.FlowGuards
import Typokat.Check.FlowTracked

/-!
# The Flow Graph Has a Path for Every Execution: Expressions

Executions are matched with paths of the built graph: whatever an execution does between two
points, the graph has a path between the flow nodes of these points with the same
assignments and guard outcomes.  Where the two diverge, since the builder leaves a form out or
walks one that is skipped, the path keeps what has happened since.  The match can be restricted
to some symbols, so that what happens to the others does not matter.

## Main Results

- `Follows` : an execution is matched by a path
- `simModes_build` : executions of expressions are matched
-/

namespace Typokat.Check

open Types Builder List

/-! ## §1 Traces of paths -/

/-- The event that entering a node stands for. -/
def FlowNode.event : FlowNode → Option Event
  | .assignment symbol assigned _ => some (.assign symbol assigned)
  | .condition symbol op positive _ => some (.guard symbol op positive)
  | _ => none

/-- The assignments and conditions along a path. -/
def traceOf (nodes : List FlowNode) (entered : List FlowNodeId) : List Event :=
  entered.filterMap (fun node => nodes[node]?.bind FlowNode.event)

/-- A trace has the events about the symbols, or at least ends with those since the last
point where it diverges from them. -/
structure Matches (rel : SymbolId → Bool) (events trace : List Event) : Prop where
  whole : (∀ event ∈ events, event.diverges rel = false) →
    trace.filter (Event.about rel) = events.filter (Event.about rel)
  since : ∀ before after, events = before ++ after → (∀ event ∈ after, event.diverges rel = false) →
    after.filter (Event.about rel) <:+ trace.filter (Event.about rel)

namespace Matches

variable {rel : SymbolId → Bool} {events first second trace trace' : List Event}

theorem of_filter_eq (h : trace.filter (Event.about rel) = events.filter (Event.about rel)) :
    Matches rel events trace := by
  refine ⟨fun _ => h, ?_⟩
  rintro before after rfl -
  rw [h, filter_append]
  exact suffix_append _ _

theorem append (h : Matches rel first trace) (h' : Matches rel second trace') :
    Matches rel (first ++ second) (trace ++ trace') := by
  refine ⟨?_, ?_⟩
  · intro hkept
    rw [forall_mem_append] at hkept
    rw [filter_append, filter_append, h.whole hkept.1, h'.whole hkept.2]
  · intro before after heq hkept
    rw [filter_append]
    rcases append_eq_append_iff.mp heq with ⟨between, rfl, hsecond⟩ | ⟨between, hfirst, rfl⟩
    · -- the last divergence is in the second part
      exact (h'.since between after hsecond hkept).trans (suffix_append _ _)
    · rw [forall_mem_append] at hkept
      rw [filter_append, h'.whole hkept.2]
      obtain ⟨front, hfront⟩ := h.since before between hfirst hkept.1
      exact ⟨front, by rw [← append_assoc, hfront]⟩

/-- Other events with the same ones about the symbols. -/
theorem congr (h : Matches rel first trace) (hkept : ∀ event ∈ first, event.diverges rel = false)
    (heq : first.filter (Event.about rel) = second.filter (Event.about rel)) :
    Matches rel second trace :=
  of_filter_eq ((h.whole hkept).trans heq)

/-- A right side is skipped: the trace goes through it all the same. -/
theorem skip {symbols : List SymbolId} (h : Matches rel (first ++ second) trace)
    (hamong : ∀ event ∈ first, event.among symbols) :
    Matches rel (symbols.map Event.skipped ++ second) trace := by
  have hskipped : (symbols.map Event.skipped).filter (Event.about rel) = [] := by
    rw [filter_eq_nil_iff]
    intro event hevent
    obtain ⟨symbol, -, rfl⟩ := mem_map.mp hevent
    simp [Event.about]
  refine ⟨?_, ?_⟩
  · intro hkept
    rw [forall_mem_append] at hkept
    -- no symbol of the right side matters
    have huntouched : ∀ symbol ∈ symbols, rel symbol = false :=
      fun symbol hsymbol => hkept.1 _ (mem_map_of_mem hsymbol)
    have hfirst := fun event hevent => about_eq_false huntouched (hamong event hevent)
    rw [h.whole, filter_append, filter_append, hskipped, filter_eq_nil_iff.mpr]
    · intro event hevent
      simp [(hfirst event hevent).1]
    · exact forall_mem_append.mpr ⟨fun event hevent => (hfirst event hevent).2, hkept.2⟩
  · intro before after heq hkept
    rcases append_eq_append_iff.mp heq with ⟨between, rfl, hsecond⟩ | ⟨between, hbetween, rfl⟩
    · exact h.since (first ++ between) after (by rw [hsecond, append_assoc]) hkept
    · have hnil : between.filter (Event.about rel) = [] := by
        rw [hbetween, filter_append, append_eq_nil_iff] at hskipped
        exact hskipped.2
      rw [filter_append, hnil, nil_append]
      exact h.since first second rfl (forall_mem_append.mp hkept).2

end Matches

/-- A path on which the symbols fare as in the events. -/
def Flows (rel : SymbolId → Bool) (nodes : List FlowNode) (origin last : FlowNodeId)
    (events : List Event) : Prop :=
  ∃ entered, Path nodes origin last entered ∧ Matches rel events (traceOf nodes entered)

theorem Path.append {nodes : List FlowNode} {origin mid last : FlowNodeId}
    {first second : List FlowNodeId} (h : Path nodes origin mid first)
    (h' : Path nodes mid last second) : Path nodes origin last (first ++ second) := by
  induction h' with
  | nil => rwa [append_nil]
  | snoc _ hrow hedge ih =>
    rw [← append_assoc]
    exact .snoc ih hrow hedge

theorem RowExtends.event {row row' : FlowNode} (h : RowExtends row row') :
    row'.event = row.event := by
  rcases h with rfl | ⟨pre, back, back', rfl, rfl, -⟩ <;> rfl

namespace Flows

variable {rel : SymbolId → Bool} {nodes : List FlowNode} {origin mid last : FlowNodeId}
  {first second events : List Event}

theorem refl : Flows rel nodes origin origin [] := ⟨[], .nil, .of_filter_eq rfl⟩

theorem trans (h : Flows rel nodes origin mid first) (h' : Flows rel nodes mid last second) :
    Flows rel nodes origin last (first ++ second) := by
  obtain ⟨entered, hpath, htrace⟩ := h
  obtain ⟨entered', hpath', htrace'⟩ := h'
  refine ⟨entered ++ entered', hpath.append hpath', ?_⟩
  rw [traceOf, filterMap_append]
  exact htrace.append htrace'

/-- One edge. -/
theorem edge {row : FlowNode} (hrow : nodes[last]? = some row) (hedge : origin ∈ row.antecedents) :
    Flows rel nodes origin last row.event.toList := by
  refine ⟨[last], .snoc .nil hrow hedge, .of_filter_eq (congrArg (filter _) ?_)⟩
  cases hevent : row.event <;> simp [traceOf, hrow, hevent]

/-- Only the events about the symbols matter. -/
theorem congr (heq : first.filter (Event.about rel) = second.filter (Event.about rel))
    (hkept : ∀ event ∈ first, event.diverges rel = false)
    (h : Flows rel nodes origin last first) : Flows rel nodes origin last second := by
  obtain ⟨entered, hpath, htrace⟩ := h
  exact ⟨entered, hpath, htrace.congr hkept heq⟩

end Flows

/-! ## §2 Executions along paths -/

/-- Every reference that the events reach has its node recorded, with a path to it. -/
def Reached (rel : SymbolId → Bool) (nodes : List FlowNode) (refs : List (Span × FlowNodeId))
    (origin : FlowNodeId) (events : List Event) : Prop :=
  ∀ before span after, events = before ++ .reference span :: after →
    ∃ node, (span, node) ∈ refs ∧ Flows rel nodes origin node before

section Reaching

variable {rel : SymbolId → Bool} {nodes : List FlowNode} {refs : List (Span × FlowNodeId)}

theorem reached_nil {origin : FlowNodeId} :
    Reached rel nodes refs origin [] := by
  intro before span after h
  simp at h

theorem reference_not_mem_of_writes {symbols : List SymbolId} {events : List Event}
    (h : Writes symbols events) (span : Span) : .reference span ∉ events := by
  intro hmem
  obtain ⟨symbol, -, heq⟩ := h _ hmem
  cases heq

/-- Events without references. -/
theorem reached_of_writes {origin : FlowNodeId} {events : List Event}
    (h : ∀ span, .reference span ∉ events) : Reached rel nodes refs origin events := by
  rintro before span after rfl
  exact absurd (by simp) (h span)

theorem Reached.append {origin mid : FlowNodeId} {first second : List Event}
    (h : Reached rel nodes refs origin first) (hflows : Flows rel nodes origin mid first)
    (h' : Reached rel nodes refs mid second) : Reached rel nodes refs origin (first ++ second) := by
  intro before span after heq
  rcases append_eq_append_iff.mp heq with ⟨between, rfl, hsecond⟩ | ⟨between, hfirst, hrest⟩
  · obtain ⟨node, hnode, hpath⟩ := h' between span after hsecond
    exact ⟨node, hnode, hflows.trans hpath⟩
  · cases between with
    | nil =>
      rw [nil_append] at hrest
      rw [append_nil] at hfirst
      obtain ⟨node, hnode, hpath⟩ := h' [] span after hrest.symm
      refine ⟨node, hnode, ?_⟩
      have := hflows.trans hpath
      rwa [hfirst, append_nil] at this
    | cons event between =>
      rw [cons_append, cons.injEq] at hrest
      obtain ⟨rfl, -⟩ := hrest
      exact h before span between hfirst

end Reaching

/-- **An execution is matched by a path** to a node that flow reaches. -/
structure Follows (rel : SymbolId → Bool) (nodes : List FlowNode)
    (refs : List (Span × FlowNodeId)) (origin last : FlowNodeId) (events : List Event) : Prop where
  reachable : last ≠ .unreachable
  flows : Flows rel nodes origin last events
  references : Reached rel nodes refs origin events

namespace Follows

variable {rel : SymbolId → Bool} {nodes : List FlowNode} {refs : List (Span × FlowNodeId)}
  {origin mid last : FlowNodeId} {first second events : List Event}

theorem refl (h : origin ≠ .unreachable) : Follows rel nodes refs origin origin [] :=
  ⟨h, .refl, reached_nil⟩

theorem trans (h : Follows rel nodes refs origin mid first)
    (h' : Follows rel nodes refs mid last second) :
    Follows rel nodes refs origin last (first ++ second) :=
  ⟨h'.reachable, h.flows.trans h'.flows, h.references.append h.flows h'.references⟩

/-- A path without events after the execution. -/
theorem extend (h : Follows rel nodes refs origin mid events)
    (h' : Follows rel nodes refs mid last []) : Follows rel nodes refs origin last events := by
  have := h.trans h'
  rwa [append_nil] at this

/-- Events without references that are the same for the symbols. -/
theorem congr (h : Follows rel nodes refs origin last first)
    (heq : first.filter (Event.about rel) = second.filter (Event.about rel))
    (hkept : ∀ event ∈ first, event.diverges rel = false)
    (hrefs : ∀ span, .reference span ∉ second) : Follows rel nodes refs origin last second :=
  ⟨h.reachable, h.flows.congr heq hkept, reached_of_writes hrefs⟩

/-- Hidden assignments leave the flow where it is. -/
theorem hidden (h : origin ≠ .unreachable) {symbols : List SymbolId}
    (hwrites : Writes symbols events) : Follows rel nodes refs origin origin events := by
  refine ⟨h, ⟨[], .nil, .of_filter_eq ?_⟩, reached_of_writes (reference_not_mem_of_writes hwrites)⟩
  rw [eq_comm]
  show events.filter _ = []
  rw [filter_eq_nil_iff]
  intro event hevent
  obtain ⟨symbol, -, rfl⟩ := hwrites event hevent
  simp [Event.about]

end Follows

/-- The arena and the recorded references of a later point of the pre-pass. -/
structure Within (b : Builder) (nodes : List FlowNode) (refs : List (Span × FlowNodeId)) : Prop where
  nodes : NodesExtend b.nodes nodes
  refs : b.references ⊆ refs

theorem Within.earlier {b b' : Builder} {nodes : List FlowNode} {refs : List (Span × FlowNodeId)}
    (h : Within b' nodes refs) (hgrown : Grown b b') : Within b nodes refs :=
  ⟨hgrown.nodes.trans h.nodes, List.Subset.trans hgrown.references.subset h.refs⟩

theorem Within.row {b : Builder} {nodes : List FlowNode} {refs : List (Span × FlowNodeId)}
    (h : Within b nodes refs) {node : Nat} {row : FlowNode} (hrow : b.nodes[node]? = some row)
    (hloop : ∀ pre back, row ≠ .loopLabel pre back) : nodes[node]? = some row := by
  obtain ⟨row', hrow', hext⟩ := h.nodes node row hrow
  rcases hext with rfl | ⟨pre, back, _, rfl, -⟩
  · exact hrow'
  · exact absurd rfl (hloop pre back)

/-! ## §3 The primitives -/

section Primitives

variable {rel : SymbolId → Bool} {nodes : List FlowNode} {refs : List (Span × FlowNodeId)}
  {b : Builder}

/-- A new node is entered from its antecedent. -/
theorem follows_newFlowFor (hb : b.Ranked) (row : FlowNode) (occurrence : Occurrence)
    {antecedent : FlowNodeId} (hedge : antecedent ∈ row.antecedents)
    (hloop : ∀ pre back, row ≠ .loopLabel pre back)
    (hwithin : Within (b.newFlowFor row occurrence).2 nodes refs) :
    Follows rel nodes refs antecedent (b.newFlowFor row occurrence).1 row.event.toList := by
  have hrow : (b.newFlowFor row occurrence).2.nodes[b.nodes.length]? = some row := by
    simp [newFlowFor]
  refine ⟨hb.length_ne_unreachable, .edge (hwithin.row hrow hloop) hedge, reached_of_writes ?_⟩
  cases row <;> simp [FlowNode.event]

theorem follows_assign (hb : b.Ranked) (symbol : SymbolId) (assigned : Option FlowType)
    (occurrence : Occurrence) (hwithin : Within (b.assign symbol assigned occurrence) nodes refs) :
    Follows rel nodes refs b.cursor (b.assign symbol assigned occurrence).cursor
      [.assign symbol assigned] :=
  follows_newFlowFor hb (.assignment symbol assigned b.cursor) occurrence mem_cons_self
    (by simp) ⟨hwithin.nodes, hwithin.refs⟩

theorem follows_flowCondition (hb : b.Ranked) {antecedent : FlowNodeId}
    (hne : antecedent ≠ .unreachable) (fact : Option GuardFact) (result : Bool)
    (hwithin : Within (b.flowCondition antecedent fact result).2 nodes refs) :
    Follows rel nodes refs antecedent (b.flowCondition antecedent fact result).1
      (guardEvents fact result) := by
  unfold flowCondition at hwithin ⊢
  rw [if_neg hne] at hwithin ⊢
  cases fact with
  | none => exact .refl hne
  | some fact => exact follows_newFlowFor hb _ _ mem_cons_self (by simp) hwithin

section Joins

variable (hb : b.Ranked) {antecedents : List FlowNodeId} {a : FlowNodeId} (ha : a ∈ antecedents)
  (hne : a ≠ .unreachable)
include hb ha hne

/-- Every reachable antecedent of a join flows into it. -/
theorem follows_flowJoin (hwithin : Within (b.flowJoin antecedents).2 nodes refs) :
    Follows rel nodes refs a (b.flowJoin antecedents).1 [] := by
  have hmem : a ∈ sortDedup (antecedents.filter (fun a => a ≠ .unreachable)) :=
    mem_joined.mpr ⟨ha, hne⟩
  unfold flowJoin at hwithin ⊢
  split at hwithin
  · rename_i heq
    rw [heq] at hmem
    cases hmem
  · rename_i only heq
    rw [heq, mem_singleton] at hmem
    subst hmem
    exact .refl hne
  · have hrow : (b.newFlow (.branchLabel (sortDedup
        (antecedents.filter (fun a => a ≠ .unreachable))))).2.nodes[b.nodes.length]? =
          some (.branchLabel (sortDedup
            (antecedents.filter (fun a => a ≠ .unreachable)))) := by
      simp [newFlow]
    exact ⟨hb.length_ne_unreachable, .edge (hwithin.row hrow (by simp)) hmem, reached_nil⟩

theorem follows_joinAt (hwithin : Within (b.joinAt antecedents) nodes refs) :
    Follows rel nodes refs a (b.joinAt antecedents).cursor [] :=
  follows_flowJoin hb ha hne ⟨hwithin.nodes, hwithin.refs⟩

end Joins

end Primitives

/-! ## §4 Ends of executions -/

/-- The node is the label of a loop. -/
def IsLoop (nodes : List FlowNode) (node : FlowNodeId) : Prop :=
  ∃ pre back, nodes[node]? = some (.loopLabel pre back)

theorem IsLoop.mono {nodes nodes' : List FlowNode} (hext : NodesExtend nodes nodes')
    {node : FlowNodeId} (h : IsLoop nodes node) : IsLoop nodes' node := by
  obtain ⟨pre, back, hrow⟩ := h
  obtain ⟨row', hrow', hrowExt⟩ := hext node _ hrow
  rcases hrowExt with rfl | ⟨pre', _, back', heq, rfl, -⟩
  · exact ⟨pre, back, hrow'⟩
  · exact ⟨pre', back', hrow'⟩

/-- The graph goes on where an execution that ends so goes on: at the cursor, at an edge
collected for the breakable or the label, or at the label of the loop. -/
def Leaves (rel : SymbolId → Bool) (nodes : List FlowNode) (b b' : Builder) (origin : FlowNodeId)
    (events : List Event) : Outcome → Prop
  | .normal => b'.cursor ≠ .unreachable ∧ Flows rel nodes origin b'.cursor events
  | .exited => True
  | .broke none => ∀ target rest, b'.breakTargets = target :: rest →
      ∃ a ∈ target, a ≠ .unreachable ∧ Flows rel nodes origin a events
  | .broke (some label) => ∀ frame,
      b'.labelTargets.find? (fun frame => frame.name = label) = some frame →
      ∃ a ∈ frame.breaks, a ≠ .unreachable ∧ Flows rel nodes origin a events
  | .continued none => ∀ target, b.loops.head? = some target → IsLoop b.nodes target →
      Flows rel nodes origin target events
  | .continued (some label) => ∀ target, b.labeledContinueTarget label = some target →
      IsLoop b.nodes target → Flows rel nodes origin target events

/-- **An execution is matched up to its end.**  `b` is the builder before the construct and
`b'` the one after it. -/
structure Exits (rel : SymbolId → Bool) (nodes : List FlowNode) (refs : List (Span × FlowNodeId))
    (b b' : Builder) (origin : FlowNodeId) (events : List Event) (outcome : Outcome) : Prop where
  leaves : Leaves rel nodes b b' origin events outcome
  references : Reached rel nodes refs origin events

section Ends

variable {rel : SymbolId → Bool} {nodes : List FlowNode} {refs : List (Span × FlowNodeId)}
  {b b₁ b' : Builder} {origin mid : FlowNodeId} {first second events : List Event}
  {outcome : Outcome}

theorem Exits.follows (h : Exits rel nodes refs b b' origin events .normal) :
    Follows rel nodes refs origin b'.cursor events :=
  ⟨h.leaves.1, h.leaves.2, h.references⟩

theorem Follows.exits (h : Follows rel nodes refs origin b'.cursor events) :
    Exits rel nodes refs b b' origin events .normal :=
  ⟨⟨h.reachable, h.flows⟩, h.references⟩

/-- Frames are found again by their names. -/
theorem find_grown {frames frames' : List LabelFrame} (h : List.Forall₂ FrameGrown frames frames')
    (label : Name) :
    (frames.find? (fun frame => frame.name = label) = none ∧
      frames'.find? (fun frame => frame.name = label) = none) ∨
    ∃ frame frame', frames.find? (fun frame => frame.name = label) = some frame ∧
      frames'.find? (fun frame => frame.name = label) = some frame' ∧ FrameGrown frame frame' := by
  induction h with
  | nil => exact .inl ⟨rfl, rfl⟩
  | @cons frame frame' frames frames' hframe _ ih =>
    by_cases hname : frame.name = label
    · refine .inr ⟨frame, frame', ?_, ?_, hframe⟩
      · rw [find?_cons_of_pos (by simpa using hname)]
      · rw [find?_cons_of_pos (by simpa [hframe.name] using hname)]
    · rw [find?_cons_of_neg (by simpa using hname),
        find?_cons_of_neg (by simpa [hframe.name] using hname)]
      exact ih

theorem continueTarget_grown (h : List.Forall₂ FrameGrown b.labelTargets b'.labelTargets)
    {label : Name} {target : FlowNodeId} (htarget : b.labeledContinueTarget label = some target) :
    b'.labeledContinueTarget label = some target := by
  unfold labeledContinueTarget at htarget ⊢
  rcases find_grown h label with ⟨hfind, -⟩ | ⟨frame, frame', hfind, hfind', hgrown⟩
  · rw [hfind] at htarget
    cases htarget
  · rw [hfind, Option.bind_some] at htarget
    rw [hfind', Option.bind_some]
    exact hgrown.target target htarget

/-- Something is executed before. -/
theorem Exits.before (h : Exits rel nodes refs b₁ b' mid second outcome) (hgrown : Grown b b₁)
    (hfirst : Follows rel nodes refs origin mid first) :
    Exits rel nodes refs b b' origin (first ++ second) outcome := by
  refine ⟨?_, hfirst.references.append hfirst.flows h.references⟩
  have hleaves := h.leaves
  cases outcome with
  | normal => exact ⟨hleaves.1, hfirst.flows.trans hleaves.2⟩
  | exited => trivial
  | broke label =>
    cases label with
    | none =>
      intro target rest htarget
      obtain ⟨a, ha, hne, hflows⟩ := hleaves target rest htarget
      exact ⟨a, ha, hne, hfirst.flows.trans hflows⟩
    | some label =>
      intro frame hframe
      obtain ⟨a, ha, hne, hflows⟩ := hleaves frame hframe
      exact ⟨a, ha, hne, hfirst.flows.trans hflows⟩
  | continued label =>
    cases label with
    | none =>
      intro target htarget hloop
      exact hfirst.flows.trans
        (hleaves target (hgrown.loops ▸ htarget) (hloop.mono hgrown.nodes))
    | some label =>
      intro target htarget hloop
      exact hfirst.flows.trans
        (hleaves target (continueTarget_grown hgrown.labels htarget) (hloop.mono hgrown.nodes))

/-- Something is built after the construct that the execution has left. -/
theorem Exits.after (h : Exits rel nodes refs b b₁ origin events outcome) (hgrown : Grown b₁ b')
    (houtcome : outcome ≠ .normal) : Exits rel nodes refs b b' origin events outcome := by
  refine ⟨?_, h.references⟩
  have hleaves := h.leaves
  cases outcome with
  | normal => exact absurd rfl houtcome
  | exited => trivial
  | broke label =>
    cases label with
    | none =>
      intro target' rest' htarget'
      have hbreaks := hgrown.breaks
      rw [htarget'] at hbreaks
      cases htargets : b₁.breakTargets with
      | nil => simp [htargets] at hbreaks
      | cons target rest =>
        rw [htargets] at hbreaks
        cases hbreaks with
        | cons hsub _ =>
          obtain ⟨a, ha, hne, hflows⟩ := hleaves target rest htargets
          exact ⟨a, hsub ha, hne, hflows⟩
    | some label =>
      intro frame' hframe'
      rcases find_grown hgrown.labels label with ⟨-, hfind'⟩ | ⟨frame, frame'', hfind, hfind', hframe⟩
      · rw [hfind'] at hframe'
        cases hframe'
      · rw [hfind', Option.some.injEq] at hframe'
        subst hframe'
        obtain ⟨a, ha, hne, hflows⟩ := hleaves frame hfind
        exact ⟨a, hframe.breaks ha, hne, hflows⟩
  | continued label => cases label <;> exact hleaves

/-- The construct ends in a join of the cursor. -/
theorem Exits.join (h : Exits rel nodes refs b b₁ origin events outcome)
    (hgrown : Grown b₁ b') (hjoin : b₁.cursor ≠ .unreachable →
      Follows rel nodes refs b₁.cursor b'.cursor []) :
    Exits rel nodes refs b b' origin events outcome := by
  by_cases houtcome : outcome = .normal
  · subst houtcome
    exact (h.follows.extend (hjoin h.leaves.1)).exits
  · exact h.after hgrown houtcome

end Ends

/-! ## §5 Matched builds -/

/-- Building matches an execution. -/
def SimRun (rel : SymbolId → Bool) (build : Builder → Builder) (events : List Event)
    (outcome : Outcome) : Prop :=
  ∀ b : Builder, b.Ranked → b.cursor ≠ .unreachable → ∀ nodes refs, Within (build b) nodes refs →
    Exits rel nodes refs b (build b) b.cursor events outcome

/-- The flow of a condition when it comes out so. -/
def Modes.edge (modes : Modes) (b : Builder) (result : Bool) : FlowNodeId :=
  if result then (modes.condition b).1.1 else (modes.condition b).1.2

def SimTest (rel : SymbolId → Bool) (modes : Modes) (result : Bool) (events : List Event) : Prop :=
  ∀ b : Builder, b.Ranked → b.cursor ≠ .unreachable →
    ∀ nodes refs, Within (modes.condition b).2 nodes refs →
      Follows rel nodes refs b.cursor (modes.edge b result) events

section Builds

variable {rel : SymbolId → Bool} {first second events : List Event} {outcome : Outcome}

theorem simRun_id : SimRun rel id [] .normal :=
  fun _ _ hne _ _ _ => (Follows.refl hne).exits

/-- One after the other. -/
theorem SimRun.andThen {build build' : Builder → Builder} (h : SimRun rel build first .normal)
    (h' : SimRun rel build' second outcome) (hgrows : GrowsAll build) (hgrows' : GrowsAll build') :
    SimRun rel (fun b => build' (build b)) (first ++ second) outcome := by
  intro b hb hne nodes refs hwithin
  have hgrown := hgrows b hb
  have hfirst := h b hb hne nodes refs (hwithin.earlier (hgrows' _ hgrown.ranked))
  have hsecond := h' (build b) hgrown.ranked hfirst.leaves.1 nodes refs hwithin
  exact hsecond.before hgrown hfirst.follows

/-- What is left before the second build. -/
theorem SimRun.leave {build build' : Builder → Builder} (h : SimRun rel build events outcome)
    (houtcome : outcome ≠ .normal) (hgrows : GrowsAll build) (hgrows' : GrowsAll build') :
    SimRun rel (fun b => build' (build b)) events outcome := by
  intro b hb hne nodes refs hwithin
  have hgrown' := hgrows' _ (hgrows b hb).ranked
  exact (h b hb hne nodes refs (hwithin.earlier hgrown')).after hgrown' houtcome

/-- A body with its own flow, and forms that are skipped. -/
theorem simRun_boundary (build : Builder → Builder) {symbols : List SymbolId}
    (hwrites : Writes symbols events) : SimRun rel (boundary build) events .normal := by
  intro b _ hne nodes refs _
  have h : Follows rel nodes refs b.cursor (boundary build b).cursor events := .hidden hne hwrites
  exact h.exits

theorem simRun_skipped {symbols : List SymbolId} (hwrites : Writes symbols events) :
    SimRun rel id events .normal :=
  fun _ _ hne _ _ _ => (Follows.hidden hne hwrites).exits

/-- A branch, from the edge of the condition to the join. -/
theorem simRun_buildFlowIf {test : Modes} {consequent alternate : Builder → Builder} {result : Bool}
    (htest : SimTest rel test result first)
    (hbranch : SimRun rel (if result then consequent else alternate) second outcome)
    (hgtest : GrownModes test) (hgconsequent : GrowsAll consequent)
    (hgalternate : GrowsAll alternate) :
    SimRun rel (buildFlowIf test consequent alternate) (first ++ second) outcome := by
  intro b hb hne nodes refs hwithin
  have h := hgtest.condition b hb
  obtain ⟨hthen, helse⟩ := hgtest.edges b hb
  have hmove := grown_moveTo h.ranked hthen
  have h₁ := hgconsequent _ hmove.ranked
  have hmove₁ := grown_moveTo h₁.ranked
    (helse.trans_le (hmove.trans h₁).length_le)
  have h₂ := hgalternate _ hmove₁.ranked
  have hjoined : Grown _ (buildFlowIf test consequent alternate b) :=
    grown_joinAt_pair h₂.ranked (h₁.ranked.cursor.trans_le (hmove₁.trans h₂).length_le)
      h₂.ranked.cursor
  have hwithin₂ := hwithin.earlier hjoined
  have hwithin₁ := hwithin₂.earlier (hmove₁.trans h₂)
  have hfirst := htest b hb hne nodes refs (hwithin₁.earlier (hmove.trans h₁))
  have hjoin : ∀ a ∈ [_, _], a ≠ .unreachable → Follows rel nodes refs a
      (buildFlowIf test consequent alternate b).cursor [] :=
    fun a ha hne => follows_joinAt h₂.ranked ha hne hwithin
  cases result with
  | true =>
    have hsecond := hbranch _ hmove.ranked hfirst.reachable nodes refs hwithin₁
    exact (hsecond.join ((hmove₁.trans h₂).trans hjoined)
      (fun hne => hjoin _ mem_cons_self hne)).before (h.trans hmove) hfirst
  | false =>
    have hsecond := hbranch _ hmove₁.ranked hfirst.reachable nodes refs hwithin₂
    exact (hsecond.join hjoined (fun hne => hjoin _ (by simp) hne)).before
      (((h.trans hmove).trans h₁).trans hmove₁) hfirst

end Builds

/-! ## §6 Expressions -/

/-- Both modes of an expression match its executions. -/
structure SimModes (env : FlowEnv) (rel : SymbolId → Bool) (scope : Scope) (expr : Expr)
    (modes : Modes) : Prop where
  value : ∀ events, Evaluates env scope (.value expr) events →
    SimRun rel modes.value events .normal
  test : ∀ result events, Evaluates env scope (.test expr result) events →
    SimTest rel modes result events

section Expressions

variable {env : FlowEnv} {rel : SymbolId → Bool} {scope scope' : Scope}

/-- Events made from the declaration of a name. -/
theorem Agree.filter_eq (hagree : Agree rel scope scope') (name : Name)
    (make : Option SymbolId → List Event) (hnone : make none = [])
    (hsome : ∀ symbol, rel symbol = false → (make (some symbol)).filter (Event.about rel) = []) :
    (make (scope'.resolveValue name)).filter (Event.about rel) =
      (make (scope.resolveValue name)).filter (Event.about rel) := by
  cases hscope : scope.resolveValue name with
  | none =>
    cases hscope' : scope'.resolveValue name with
    | none => rfl
    | some symbol' =>
      rw [hnone]
      refine hsome symbol' (Bool.eq_false_iff.mpr ?_)
      intro hrel
      rw [(hagree name symbol' hrel).mpr hscope'] at hscope
      cases hscope
  | some symbol =>
    by_cases hrel : rel symbol = true
    · rw [(hagree name symbol hrel).mp hscope]
    · rw [hsome symbol (Bool.eq_false_iff.mpr hrel)]
      cases hscope' : scope'.resolveValue name with
      | none => rw [hnone, filter_nil]
      | some symbol' =>
        refine hsome symbol' (Bool.eq_false_iff.mpr ?_)
        intro hrel'
        rw [(hagree name symbol' hrel').mpr hscope', Option.some.injEq] at hscope
        exact hrel (hscope ▸ hrel')

theorem filter_guardEvents_agree (hagree : Agree rel scope scope') (expr : Expr) (result : Bool) :
    (guardEvents (analyzeGuard env scope' expr) result).filter (Event.about rel) =
      (guardEvents (analyzeGuard env scope expr) result).filter (Event.about rel) := by
  rcases oneName_analyzeGuard env expr with hnone | ⟨name, fact, hsymbol, hsome⟩
  · have h := fun scope : Scope => hnone scope
    dsimp only at h
    rw [h scope, h scope']
  · have h := fun scope : Scope => hsome scope
    dsimp only at h
    rw [h scope, h scope']
    refine hagree.filter_eq name (fun symbol => guardEvents (symbol.map fact) result) rfl ?_
    intro symbol hrel
    simp [guardEvents, Event.about, hsymbol, hrel]

theorem filter_writeEvents_agree (hagree : Agree rel scope scope') (name : Name)
    (assigned : Option FlowType) :
    (writeEvents scope' name assigned).filter (Event.about rel) =
      (writeEvents scope name assigned).filter (Event.about rel) := by
  have helim : ∀ scope : Scope, writeEvents scope name assigned =
      (scope.resolveValue name).elim [] (fun symbol => [Event.assign symbol assigned]) := by
    intro scope
    unfold writeEvents
    cases scope.resolveValue name <;> rfl
  rw [helim, helim]
  refine hagree.filter_eq name (fun symbol =>
    symbol.elim [] (fun symbol => [Event.assign symbol assigned])) rfl ?_
  intro symbol hrel
  simp [Event.about, hrel]

theorem diverges_guardEvents (fact : Option GuardFact) (result : Bool) :
    ∀ event ∈ guardEvents fact result, event.diverges rel = false := by
  cases fact <;> simp [guardEvents, Event.diverges]

theorem diverges_writeEvents (name : Name) (assigned : Option FlowType) :
    ∀ event ∈ writeEvents scope name assigned, event.diverges rel = false := by
  unfold writeEvents
  split <;> simp [Event.diverges]

theorem reference_not_mem_guardEvents (fact : Option GuardFact) (result : Bool) (span : Span) :
    .reference span ∉ guardEvents fact result := by
  cases fact <;> simp [guardEvents]

theorem reference_not_mem_writeEvents (name : Name) (assigned : Option FlowType) (span : Span) :
    .reference span ∉ writeEvents scope name assigned := by
  unfold writeEvents
  split <;> simp

variable {events : List Event}

/-- A test that is no composed condition: its value, then the guard. -/
theorem simTest_leaf (hagree : Agree rel scope scope') (expr : Expr) {value : Builder → Builder}
    (hgrows : GrowsAll value) (h : SimRun rel value events .normal)
    (result : Bool) :
    SimTest rel (.leaf env scope' expr value) result
      (events ++ guardEvents (analyzeGuard env scope expr) result) := by
  intro b hb hne nodes refs hwithin
  have hvalue := hgrows b hb
  have hfirst := grownTo_flowCondition hvalue.ranked (analyzeGuard env scope' expr) true
    hvalue.ranked.cursor
  have hsecond := grownTo_flowCondition hfirst.grown.ranked
    (analyzeGuard env scope' expr) false (hvalue.ranked.cursor.trans_le hfirst.grown.length_le)
  have hwithin₁ := hwithin.earlier hsecond.grown
  have hrun := (h b hb hne nodes refs (hwithin₁.earlier hfirst.grown)).follows
  have hguard : Follows rel nodes refs (value b).cursor
      ((Modes.leaf env scope' expr value).edge b result)
      (guardEvents (analyzeGuard env scope' expr) result) := by
    cases result with
    | true => exact follows_flowCondition hvalue.ranked hrun.reachable _ true hwithin₁
    | false => exact follows_flowCondition hfirst.grown.ranked hrun.reachable _ false hwithin
  exact hrun.trans (hguard.congr (filter_guardEvents_agree hagree expr result)
    (diverges_guardEvents _ _) (reference_not_mem_guardEvents _ _))

theorem simModes_leaf (hagree : Agree rel scope scope') {expr : Expr} (hleaf : expr.isLeaf = true)
    {value : Builder → Builder} (hgrows : GrowsAll value)
    (h : ∀ events, Evaluates env scope (.value expr) events → SimRun rel value events .normal) :
    SimModes env rel scope expr (.leaf env scope' expr value) := by
  refine ⟨h, ?_⟩
  intro result events heval
  cases heval with
  | leaf _ _ heval => exact simTest_leaf hagree expr hgrows (h _ heval) result
  | testParen | testNot | andFalse | andTrue | orTrue | orFalse | coalesceLeft | coalesceRight =>
    simp [Expr.isLeaf] at hleaf

/-- The second operand from an edge of the first. -/
theorem SimTest.andThen {left right : Modes} {taken result : Bool} {first second : List Event}
    (hleft : SimTest rel left taken first) (hright : SimTest rel right result second)
    (hgleft : GrownModes left) (hgright : GrownModes right) {b : Builder} (hb : b.Ranked)
    (hne : b.cursor ≠ .unreachable) {nodes : List FlowNode} {refs : List (Span × FlowNodeId)}
    (hwithin : Within (right.condition ((left.condition b).2.moveTo (left.edge b taken))).2 nodes
      refs) :
    Follows rel nodes refs b.cursor
      (right.edge ((left.condition b).2.moveTo (left.edge b taken)) result) (first ++ second) := by
  have hgrown := hgleft.condition b hb
  have hedge : left.edge b taken < (left.condition b).2.nodes.length := by
    cases taken with
    | true => exact (hgleft.edges b hb).1
    | false => exact (hgleft.edges b hb).2
  have hmove := grown_moveTo hgrown.ranked hedge
  have hlater := hmove.trans (hgright.condition _ hmove.ranked)
  have hfirst := hleft b hb hne nodes refs (hwithin.earlier hlater)
  exact hfirst.trans (hright _ hmove.ranked hfirst.reachable nodes refs hwithin)

section Logical

variable {left right : Modes} {leftExpr rightExpr : Expr}
  (hleft : SimModes env rel scope leftExpr left) (hright : SimModes env rel scope rightExpr right)
  (hgleft : GrownModes left) (hgright : GrownModes right)
include hleft hright hgleft hgright

theorem simTest_and {result : Bool} {events : List Event}
    (h : Evaluates env scope (.test (.logical .and leftExpr rightExpr) result) events) :
    SimTest rel ⟨valueLogical .and left right, conditionLogical .and left right⟩ result events := by
  intro b hb hne nodes refs hwithin
  obtain ⟨hlt, hlf⟩ := hgleft.edges b hb
  obtain ⟨hgrown, hlater⟩ := hgleft.andThen hgright hb hlt
  have hedges := hgright.edges _ (grown_moveTo (hgleft.condition b hb).ranked hlt).ranked
  have hjoined := grownTo_flowJoin_pair hgrown.ranked (hlf.trans_le hlater.length_le) hedges.2
  have hwithin₁ := hwithin.earlier hjoined.grown
  have hjoin : ∀ a ∈ [_, _], a ≠ .unreachable → Follows rel nodes refs a _ [] :=
    fun a ha hne => follows_flowJoin hgrown.ranked ha hne hwithin
  cases h with
  | andFalse h =>
    have hfirst := hleft.test false events h b hb hne nodes refs (hwithin₁.earlier hlater)
    exact hfirst.extend (hjoin _ mem_cons_self hfirst.reachable)
  | @andTrue _ _ _ first second h h' =>
    have hboth := (hleft.test true first h).andThen (hright.test result second h')
      hgleft hgright hb hne hwithin₁
    cases result with
    | true => exact hboth
    | false => exact hboth.extend (hjoin _ (mem_cons_of_mem _ mem_cons_self) hboth.reachable)
  | leaf _ hleaf => cases hleaf

theorem simTest_or {result : Bool} {events : List Event}
    (h : Evaluates env scope (.test (.logical .or leftExpr rightExpr) result) events) :
    SimTest rel ⟨valueLogical .or left right, conditionLogical .or left right⟩ result events := by
  intro b hb hne nodes refs hwithin
  obtain ⟨hlt, hlf⟩ := hgleft.edges b hb
  obtain ⟨hgrown, hlater⟩ := hgleft.andThen hgright hb hlf
  have hedges := hgright.edges _ (grown_moveTo (hgleft.condition b hb).ranked hlf).ranked
  have hjoined := grownTo_flowJoin_pair hgrown.ranked (hlt.trans_le hlater.length_le) hedges.1
  have hwithin₁ := hwithin.earlier hjoined.grown
  have hjoin : ∀ a ∈ [_, _], a ≠ .unreachable → Follows rel nodes refs a _ [] :=
    fun a ha hne => follows_flowJoin hgrown.ranked ha hne hwithin
  cases h with
  | orTrue h =>
    have hfirst := hleft.test true events h b hb hne nodes refs (hwithin₁.earlier hlater)
    exact hfirst.extend (hjoin _ mem_cons_self hfirst.reachable)
  | @orFalse _ _ _ first second h h' =>
    have hboth := (hleft.test false first h).andThen (hright.test result second h')
      hgleft hgright hb hne hwithin₁
    cases result with
    | true => exact hboth.extend (hjoin _ (mem_cons_of_mem _ mem_cons_self) hboth.reachable)
    | false => exact hboth
  | leaf _ hleaf => cases hleaf

theorem simTest_coalesce {result : Bool} {events : List Event}
    (h : Evaluates env scope (.test (.logical .coalesce leftExpr rightExpr) result) events) :
    SimTest rel ⟨valueLogical .coalesce left right, conditionLogical .coalesce left right⟩ result
      events := by
  intro b hb hne nodes refs hwithin
  have hgrown := hgleft.value b hb
  have hgrown' := hgright.value _ hgrown.ranked
  have hjoined := grownTo_flowJoin_pair hgrown'.ranked
    (hgrown.ranked.cursor.trans_le hgrown'.length_le) hgrown'.ranked.cursor
  have hwithin₁ := hwithin.earlier hjoined.grown
  have hjoin : ∀ a ∈ [(left.value b).cursor, (right.value (left.value b)).cursor],
      a ≠ .unreachable → Follows rel nodes refs a (Modes.edge
        ⟨valueLogical .coalesce left right, conditionLogical .coalesce left right⟩ b result) [] := by
    intro a ha hne
    cases result <;> exact follows_flowJoin hgrown'.ranked ha hne hwithin
  have hwithin₀ := hwithin₁.earlier hgrown'
  cases h with
  | coalesceLeft _ h =>
    have hfirst := (hleft.value events h b hb hne nodes refs hwithin₀).follows
    exact hfirst.extend (hjoin _ mem_cons_self hfirst.reachable)
  | @coalesceRight _ _ first second _ h h' =>
    have hboth := (((hleft.value first h).andThen (hright.value second h') hgleft.value
      hgright.value) b hb hne nodes refs hwithin₁).follows
    exact hboth.extend (hjoin _ (mem_cons_of_mem _ mem_cons_self) hboth.reachable)
  | leaf _ hleaf => cases hleaf

theorem simModes_logical (op : LogicalOperator) :
    SimModes env rel scope (.logical op leftExpr rightExpr)
      ⟨valueLogical op left right, conditionLogical op left right⟩ := by
  have htest : ∀ result events,
      Evaluates env scope (.test (.logical op leftExpr rightExpr) result) events →
      SimTest rel ⟨valueLogical op left right, conditionLogical op left right⟩ result events := by
    intro result events h
    cases op with
    | and => exact simTest_and hleft hright hgleft hgright h
    | or => exact simTest_or hleft hright hgleft hgright h
    | coalesce => exact simTest_coalesce hleft hright hgleft hgright h
  refine ⟨?_, htest⟩
  intro events h
  cases h with
  | @logical _ _ _ result _ h =>
    intro b hb hne nodes refs hwithin
    obtain ⟨hgrown, htrue, hfalse⟩ := grown_conditionLogical hgleft hgright op hb
    have hjoined : Grown _ (valueLogical op left right b) :=
      grown_joinAt_pair hgrown.ranked htrue hfalse
    have hedge := htest result events h b hb hne nodes refs (hwithin.earlier hjoined)
    have hmem : Modes.edge ⟨valueLogical op left right, conditionLogical op left right⟩ b result ∈
        [(conditionLogical op left right b).1.1, (conditionLogical op left right b).1.2] := by
      cases result <;> simp [Modes.edge]
    exact (hedge.extend (follows_joinAt hgrown.ranked hmem hedge.reachable hwithin)).exits

end Logical

/-- An assignment to the identifier that the name stands for. -/
theorem simRun_write (hagree : Agree rel scope scope') (name : Name) (assigned : Option FlowType)
    (occurrence : Occurrence) {build : Builder → Builder}
    (hbuild : ∀ b : Builder, b.cursor ≠ .unreachable → build b =
      match scope'.resolveValue name with
      | some symbol => b.assign symbol assigned occurrence
      | none => b) :
    SimRun rel build (writeEvents scope name assigned) .normal := by
  intro b hb hne nodes refs hwithin
  have hbuilt : Follows rel nodes refs b.cursor (build b).cursor
      (writeEvents scope' name assigned) := by
    rw [hbuild b hne] at hwithin ⊢
    unfold writeEvents
    cases hscope' : scope'.resolveValue name with
    | none => exact .refl hne
    | some symbol =>
      rw [hscope'] at hwithin
      exact follows_assign hb symbol assigned occurrence hwithin
  exact (hbuilt.congr (filter_writeEvents_agree hagree name assigned)
    (diverges_writeEvents name assigned) (reference_not_mem_writeEvents name assigned)).exits

/-- Storing into a target reads nothing that is looked at. -/
theorem reference_not_mem_target {task : EvalTask} (h : Evaluates env scope task events)
    (span : Span) :
    (∀ target, task = .target target → .reference span ∉ events) ∧
      ∀ targets, task = .targets targets → .reference span ∉ events := by
  induction h with
  | targetIdentifier _ name =>
    exact ⟨fun _ _ => reference_not_mem_writeEvents name none span, by simp⟩
  | targetArray _ ih => exact ⟨fun _ _ => ih.2 _ rfl, by simp⟩
  | targetObject _ ih => exact ⟨fun _ _ => ih.2 _ rfl, by simp⟩
  | targetDefault hwrites _ ih =>
    refine ⟨fun _ _ hmem => ?_, by simp⟩
    rcases mem_append.mp hmem with hmem | hmem
    · exact reference_not_mem_of_writes hwrites span hmem
    · exact ih.1 _ rfl hmem
  | targetOther _ hwrites => exact ⟨fun _ _ => reference_not_mem_of_writes hwrites span, by simp⟩
  | targetsNil => simp
  | targetsCons _ _ ih₁ ih₂ =>
    refine ⟨by simp, fun _ _ hmem => ?_⟩
    rcases mem_append.mp hmem with hmem | hmem
    · exact ih₁.1 _ rfl hmem
    · exact ih₂.2 _ rfl hmem
  | _ => exact ⟨by simp, by simp⟩

/-- Targets keep the flow reachable. -/
def GrowsReachable (build : Builder → Builder) : Prop :=
  ∀ b : Builder, b.Ranked → b.cursor ≠ .unreachable → Grown b (build b)

theorem SimRun.andThenTarget {build build' : Builder → Builder} {first second : List Event}
    (h : SimRun rel build first .normal) (h' : SimRun rel build' second .normal)
    (hgrows : GrowsReachable build) (hreach : ∀ b : Builder, b.Ranked → b.cursor ≠ .unreachable →
      (build b).cursor ≠ .unreachable) (hgrows' : GrowsReachable build') :
    SimRun rel (fun b => build' (build b)) (first ++ second) .normal := by
  intro b hb hne nodes refs hwithin
  have hgrown := hgrows b hb hne
  have hne' := hreach b hb hne
  have hfirst := h b hb hne nodes refs (hwithin.earlier (hgrows' _ hgrown.ranked hne'))
  exact (h' _ hgrown.ranked hne' nodes refs hwithin).before hgrown hfirst.follows

/-- Storing into targets is matched by the resets of their identifiers.  Induction over the
evaluation. -/
theorem simRun_targets (hagree : Agree rel scope scope') {task : EvalTask} {events : List Event}
    (h : Evaluates env scope task events) :
    (∀ target, task = .target target →
      SimRun rel (resetPatternTargets scope' target) events .normal) ∧
    ∀ targets, task = .targets targets →
      SimRun rel (resetAllTargets scope' targets) events .normal := by
  induction h with
  | targetIdentifier span name =>
    refine ⟨?_, by simp⟩
    rintro _ ⟨⟩
    refine simRun_write hagree name none ⟨span, name⟩ ?_
    intro b _
    rw [resetPatternTargets]
    unfold resetIdentifier
    cases scope'.resolveValue name <;> rfl
  | targetArray _ ih =>
    refine ⟨?_, by simp⟩
    rintro _ ⟨⟩
    exact ih.2 _ rfl
  | targetObject _ ih =>
    refine ⟨?_, by simp⟩
    rintro _ ⟨⟩
    exact ih.2 _ rfl
  | @targetDefault target _ _ _ hwrites _ ih =>
    refine ⟨?_, by simp⟩
    rintro _ ⟨⟩
    have hstored := ih.1 target rfl
    exact SimRun.andThenTarget (simRun_skipped hwrites) hstored (fun _ hb _ => .refl hb)
      (fun _ _ hne => hne) (fun b hb hne => ((grown_resetTargets scope').1 _ b hb hne).1)
  | @targetOther target _ hpattern hwrites =>
    refine ⟨?_, by simp⟩
    rintro _ ⟨⟩
    -- the builder does not look at other targets
    have hid : resetPatternTargets scope' target = id := by
      funext b
      unfold resetPatternTargets
      split <;> first | rfl | simp [Expr.isPattern] at hpattern
    rw [hid]
    exact simRun_skipped hwrites
  | targetsNil =>
    refine ⟨by simp, ?_⟩
    rintro _ ⟨⟩
    exact simRun_id
  | @targetsCons target rest _ _ _ _ ih ihRest =>
    refine ⟨by simp, ?_⟩
    rintro _ ⟨⟩
    obtain ⟨hgrown, hgrownAll⟩ := grown_resetTargets scope'
    have hbuild : resetAllTargets scope' (target :: rest) =
        fun b => resetAllTargets scope' rest (resetPatternTargets scope' target b) := rfl
    rw [hbuild]
    exact SimRun.andThenTarget (ih.1 _ rfl) (ihRest.2 _ rfl)
      (fun b hb hne => (hgrown target b hb hne).1) (fun b hb hne => (hgrown target b hb hne).2)
      (fun b hb hne => (hgrownAll rest b hb hne).1)
  | _ => exact ⟨by simp, by simp⟩

/-- The end of an assignment expression, for an identifier. -/
theorem simRun_assignIdentifier (hagree : Agree rel scope scope') (op : AssignmentOperator)
    (span : Span) (name : Name) (right : Expr) :
    SimRun rel (assignTarget env scope' op (.identifier span name) right)
      (writeEvents scope name (if op = .assign then flowAssigned env right else none)) .normal := by
  refine simRun_write hagree name _ ⟨span, name⟩ ?_
  intro b hne
  unfold assignTarget
  rw [if_neg hne]
  cases hscope' : scope'.resolveValue name <;> simp [hscope']

/-- The end of an assignment expression, for any target of an operator that resets. -/
theorem simRun_assignTarget (hagree : Agree rel scope scope') {op : AssignmentOperator}
    {target : Expr} (right : Expr) (hop : op ≠ .assign ∨ ∀ span name, target ≠ .identifier span name)
    (h : Evaluates env scope (.target target) events) :
    SimRun rel (assignTarget env scope' op target right) events .normal := by
  by_cases hident : ∃ span name, target = .identifier span name
  · obtain ⟨span, name, rfl⟩ := hident
    have hop' : op ≠ .assign := hop.resolve_right (fun h => h span name rfl)
    cases h with
    | targetOther hpattern => cases hpattern
    | targetIdentifier =>
      have h := @simRun_assignIdentifier env rel scope scope' hagree op span name right
      rwa [if_neg hop'] at h
  · push Not at hident
    intro b hb hne nodes refs hwithin
    have heq : assignTarget env scope' op target right b = resetPatternTargets scope' target b := by
      unfold assignTarget
      rw [if_neg hne]
      split
      · exact absurd rfl (hident _ _)
      · rfl
    rw [heq] at hwithin ⊢
    exact (simRun_targets hagree h).1 target rfl b hb hne nodes refs hwithin

theorem simRun_assignment (hagree : Agree rel scope scope') {op : AssignmentOperator}
    {target right : Expr} {modes : Modes} (hright : SimModes env rel scope right modes)
    (hgright : GrownModes modes)
    (h : Evaluates env scope (.value (.assignment op target right)) events) :
    SimRun rel (fun b => assignTarget env scope' op target right (modes.value b)) events .normal := by
  have hgassign : GrowsAll (assignTarget env scope' op target right) :=
    fun b hb => grown_assignTarget env scope' op target right hb
  cases h with
  | assign span name _ h =>
    exact (hright.value _ h).andThen (simRun_assignIdentifier hagree op span name right)
      hgright.value hgassign
  | destructure hident _ h h' =>
    exact (hright.value _ h).andThen (simRun_assignTarget hagree right (.inr hident) h')
      hgright.value hgassign
  | logicalAssign h h' =>
    exact (hright.value _ h).andThen
      (simRun_assignTarget hagree right (.inl (by simp)) h') hgright.value hgassign
  | logicalSkip _ h' =>
    -- the graph goes through the right side, as some execution of it does
    obtain ⟨skipped, hskipped⟩ := (evaluable right).1
    intro b hb hne nodes refs hwithin
    have hrun := ((hright.value _ hskipped).andThen
      (simRun_assignTarget hagree right (.inl (by simp)) h') hgright.value hgassign)
      b hb hne nodes refs hwithin
    obtain ⟨entered, hpath, htrace⟩ := hrun.leaves.2
    refine ⟨⟨hrun.leaves.1, entered, hpath, htrace.skip hskipped.among⟩, reached_of_writes ?_⟩
    intro span hmem
    rcases mem_append.mp hmem with hmem | hmem
    · obtain ⟨symbol, -, heq⟩ := mem_map.mp hmem
      cases heq
    · exact (reference_not_mem_target h' span).1 _ rfl hmem

mutual

/-- **Executions of expressions are matched.** -/
theorem simModes_build (hagree : Agree rel scope scope') : ∀ expr : Expr,
    SimModes env rel scope expr (buildModes env scope' expr)
  | .identifier span name => by
    rw [buildModes]
    refine simModes_leaf hagree rfl (growsAll_recordReference span) ?_
    intro events h
    cases h with
    | identifier =>
      intro b _ hne nodes refs hwithin
      refine ⟨⟨hne, [], .nil, .of_filter_eq rfl⟩, ?_⟩
      intro before span' after heq
      -- the read is the only event
      have hbefore : before = [] ∧ span' = span := by
        cases before with
        | nil =>
          simp only [nil_append, cons.injEq, Event.reference.injEq] at heq
          exact ⟨rfl, heq.1.symm⟩
        | cons event before => simp at heq
      obtain ⟨rfl, rfl⟩ := hbefore
      exact ⟨b.cursor, hwithin.refs mem_cons_self, .refl⟩
  | .literal value => by
    refine simModes_leaf hagree rfl (fun _ hb => .refl hb) ?_
    intro events h
    cases h with
    | literal => exact simRun_id
  | .null => by
    refine simModes_leaf hagree rfl (fun _ hb => .refl hb) ?_
    intro events h
    cases h with
    | null => exact simRun_id
  | .paren inner => by
    have hinner := simModes_build hagree inner
    rw [buildModes]
    refine ⟨?_, ?_⟩
    · intro events h
      cases h with
      | paren h => exact hinner.value events h
    · intro result events h
      cases h with
      | testParen h => exact hinner.test result events h
      | leaf _ hleaf => cases hleaf
  | .unary .logicalNot argument => by
    have hargument := simModes_build hagree argument
    rw [buildModes]
    refine ⟨?_, ?_⟩
    · intro events h
      cases h with
      | unary h => exact hargument.value events h
    · intro result events h
      cases h with
      | testNot h =>
        intro b hb hne nodes refs hwithin
        have := hargument.test (!result) events h b hb hne nodes refs hwithin
        cases result <;> exact this
      | leaf _ hleaf => cases hleaf
  | .unary .typeof argument => by
    rw [buildModes]
    · refine simModes_leaf hagree rfl (grownModes_build argument).value ?_
      intro events h
      cases h with
      | unary h => exact (simModes_build hagree argument).value events h
    · simp
  | .unary .other argument => by
    rw [buildModes]
    · refine simModes_leaf hagree rfl (grownModes_build argument).value ?_
      intro events h
      cases h with
      | unary h => exact (simModes_build hagree argument).value events h
    · simp
  | .binary op left right => by
    rw [buildModes]
    refine simModes_leaf hagree rfl (GrowsAll.andThen (grownModes_build left).value
      (grownModes_build right).value) ?_
    intro events h
    cases h with
    | binary h h' =>
      exact ((simModes_build hagree left).value _ h).andThen
        ((simModes_build hagree right).value _ h')
        (grownModes_build left).value (grownModes_build right).value
  | .logical op left right => by
    rw [buildModes]
    exact simModes_logical (simModes_build hagree left)
      (simModes_build hagree right) (grownModes_build left)
      (grownModes_build right) op
  | .conditional test consequent alternate => by
    have hgtest := @grownModes_build env scope' test
    have hgconsequent := @grownModes_build env scope' consequent
    have hgalternate := @grownModes_build env scope' alternate
    rw [buildModes]
    refine simModes_leaf hagree rfl (fun b hb => grown_buildFlowIf hgtest hgconsequent.value
      hgalternate.value hb) ?_
    intro events h
    cases h with
    | @conditional _ _ _ result first second h h' =>
      refine simRun_buildFlowIf ((simModes_build hagree test).test result first h) ?_
        hgtest hgconsequent.value hgalternate.value
      cases result with
      | true => exact (simModes_build hagree consequent).value second h'
      | false => exact (simModes_build hagree alternate).value second h'
  | .assignment op target right => by
    have hgright := @grownModes_build env scope' right
    rw [buildModes]
    refine simModes_leaf hagree rfl (GrowsAll.andThen hgright.value
      (fun b hb => grown_assignTarget env scope' op target right hb)) ?_
    intro events h
    exact simRun_assignment hagree (simModes_build hagree right) hgright h
  | .staticMember object property optional => by
    rw [buildModes]
    refine simModes_leaf hagree rfl (grownModes_build object).value ?_
    intro events h
    cases h with
    | staticMember h => exact (simModes_build hagree object).value events h
  | .operands form parts => by
    rw [buildModes]
    refine simModes_leaf hagree rfl (grown_exprs parts) ?_
    intro events h
    cases h with
    | operands h => exact simRun_exprs hagree parts events h
  | .function inner params body => by
    rw [buildModes]
    refine simModes_leaf hagree rfl
      (growsAll_boundary (grown_stmts body)) ?_
    intro events h
    cases h with
    | function => exact simRun_boundary _ (writes_nil [])
  | .arrow inner params body => by
    rw [buildModes]
    refine simModes_leaf hagree rfl
      (growsAll_boundary (grownModes_build body).value) ?_
    intro events h
    cases h with
    | arrow => exact simRun_boundary _ (writes_nil [])
  | .initializer isStatic value => by
    rw [buildModes]
    refine simModes_leaf hagree rfl
      (growsAll_boundary (grownModes_build value).value) ?_
    intro events h
    cases h with
    | initializer hwrites =>
      exact simRun_boundary _ hwrites
  | .update argument => by
    refine simModes_leaf hagree rfl (fun _ hb => .refl hb) ?_
    intro events h
    cases h with
    | update hwrites =>
      exact simRun_skipped hwrites
  | .unbuilt parts => by
    refine simModes_leaf hagree rfl (fun _ hb => .refl hb) ?_
    intro events h
    cases h with
    | unbuilt hwrites =>
      exact simRun_skipped hwrites

theorem simRun_exprs (hagree : Agree rel scope scope') : ∀ exprs : List Expr,
    ∀ events, Evaluates env scope (.values exprs) events →
    SimRun rel (buildExprs env scope' exprs) events .normal
  | [], events, h => by
    cases h with
    | nil => exact simRun_id
  | expr :: rest, events, h => by
    cases h with
    | cons h h' =>
      have hbuild : buildExprs env scope' (expr :: rest) =
          fun b => buildExprs env scope' rest ((buildModes env scope' expr).value b) := by
        funext b
        rw [buildExprs]
      rw [hbuild]
      exact ((simModes_build hagree expr).value _ h).andThen
        (simRun_exprs hagree rest _ h') (grownModes_build expr).value
        (grown_exprs rest)

end

end Expressions

end Typokat.Check
