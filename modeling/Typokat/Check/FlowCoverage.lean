import Mathlib.Data.Finset.Card
import Mathlib.Data.Set.Insert
import Mathlib.Tactic.IntervalCases
import Typokat.Check.FlowWalk

/-!
# The Flow Resolver Covers Every Path

The type found by the backward walk has every member that some execution path gives the
symbol.  Loop labels are unrolled once only, and while a label is in flight its type is a
placeholder; neither loses a member, because a member that arrives at a label has arrived
there a first time, and on that first arrival it came along a path that does not use the
label before.

So the invariant is about paths that avoid the labels in flight: whatever the tables hold,
the type computed for a node covers what reaches the node without passing a label in flight.
A durable memo entry is written when no label is in flight, and covers every path.

A join with a part `unknown` is `unknown`, and a later guard filters it as one member.  So a
guard has to keep `unknown` where it can be met; elsewhere a guard drops what it likes.

## Main Results

- `reaches_of_path` : the members along a path are members that reach its end
- `Reaches.firstArrival` : what reaches a node does so without the label, or reaches the label
- `coverRules` : every type the walk computes covers what reaches its node
- `resolve_covers_paths` : the answers of any sequence of calls cover every path
-/

namespace Typokat.Check

open FlowType FlowNode Option List

namespace FlowGraph

variable (graph : FlowGraph)

/-! ## §1 Shape and paths -/

/-- The two sentinels, and antecedents with smaller ids. -/
structure Ordered : Prop where
  unreachable : graph.nodes[FlowNodeId.unreachable]? = some .unreachable
  start : graph.nodes[FlowNodeId.start]? = some .start
  descending : graph.Descending

/-- The graphs of flow resolution: ordered, with back edges that come from nodes every path
to which passes through the label. -/
structure WellShaped : Prop extends graph.Ordered where
  pre : ∀ {label : FlowNodeId} {pre back : List FlowNodeId},
    graph.nodes[label]? = some (.loopLabel pre back) → ∀ antecedent ∈ pre, antecedent < label
  back : ∀ {label : FlowNodeId} {pre back : List FlowNodeId},
    graph.nodes[label]? = some (.loopLabel pre back) →
    ∀ edge ∈ back, ∀ entered, Path graph.nodes .start edge entered → label ∈ entered

/-- What a node does to the type of the symbol that flows into it. -/
def transfer (symbol : SymbolId) (ty : FlowType) (node : FlowNodeId) : FlowType :=
  match graph.nodes[node]? with
  | some (.assignment target assigned _) =>
    if target = symbol then assigned.getD (graph.declared symbol) else ty
  | some (.condition guarded op positive _) =>
    if guarded = symbol then graph.narrowBy op positive ty else ty
  | _ => ty

/-- The type obtained along a path from `START`. -/
def typeAlong (symbol : SymbolId) (entered : List FlowNodeId) : FlowType :=
  entered.foldl (graph.transfer symbol) (graph.declared symbol)

/-- Whether a node passes an atom of the symbol on. -/
def LetsThrough (symbol : SymbolId) (row : FlowNode) (atom : Atom) : Prop :=
  match row with
  | .assignment target _ _ => target ≠ symbol
  | .condition guarded op positive _ =>
    guarded = symbol → ∀ keeps, graph.guard op positive = some keeps → FlowType.Passes keeps atom
  | _ => True

/-- An atom reaches a node along some path that does not enter a node of `avoid`, the rows
on it passing the atom on. -/
inductive Reaches (passes : FlowNode → Atom → Prop) (symbol : SymbolId) (avoid : Set FlowNodeId) :
    FlowNodeId → Atom → Prop
  | start {atom : Atom} (hatom : atom ∈ (graph.declared symbol).atoms) :
      Reaches passes symbol avoid .start atom
  | assigned {node antecedent : FlowNodeId} {assigned : Option FlowType} {atom : Atom}
      (havoid : node ∉ avoid)
      (hnode : graph.nodes[node]? = some (.assignment symbol assigned antecedent))
      (hatom : atom ∈ (assigned.getD (graph.declared symbol)).atoms) :
      Reaches passes symbol avoid node atom
  | step {node antecedent : FlowNodeId} {row : FlowNode} {atom : Atom} (havoid : node ∉ avoid)
      (hnode : graph.nodes[node]? = some row) (hedge : antecedent ∈ row.antecedents)
      (hpasses : passes row atom) (h : Reaches passes symbol avoid antecedent atom) :
      Reaches passes symbol avoid node atom

variable {graph} {passes : FlowNode → Atom → Prop} {symbol : SymbolId} {avoid : Set FlowNodeId}
  {node : FlowNodeId} {atom : Atom}

theorem Reaches.mono {avoid' : Set FlowNodeId} (hsub : avoid' ⊆ avoid)
    (h : graph.Reaches passes symbol avoid node atom) :
    graph.Reaches passes symbol avoid' node atom := by
  induction h with
  | start hatom => exact .start hatom
  | assigned havoid hnode hatom => exact .assigned (fun hn => havoid (hsub hn)) hnode hatom
  | step havoid hnode hedge hpasses _ ih =>
    exact .step (fun hn => havoid (hsub hn)) hnode hedge hpasses ih

/-- Nothing reaches an avoided node, other than the start. -/
theorem Reaches.not_mem (h : graph.Reaches passes symbol avoid node atom) (hstart : node ≠ .start) :
    node ∉ avoid := by
  cases h with
  | start hatom => exact absurd rfl hstart
  | assigned havoid hnode hatom => exact havoid
  | step havoid hnode hedge hpasses h => exact havoid

/-- **First arrival.**  What reaches a node does so on a path that avoids the label, or it
enters the label on such a path: cut the path at the first visit of the label. -/
theorem Reaches.firstArrival {label : FlowNodeId} {pre back : List FlowNodeId}
    (hlabel : graph.nodes[label]? = some (.loopLabel pre back))
    (h : graph.Reaches passes symbol avoid node atom) :
    graph.Reaches passes symbol (insert label avoid) node atom ∨
      ∃ edge ∈ pre ++ back, graph.Reaches passes symbol (insert label avoid) edge atom := by
  induction h with
  | start hatom => exact .inl (.start hatom)
  | @assigned node antecedent assigned atom havoid hnode hatom =>
    refine .inl (.assigned ?_ hnode hatom)
    rintro (rfl | hn)
    · rw [hlabel] at hnode
      cases hnode
    · exact havoid hn
  | @step node antecedent row atom havoid hnode hedge hpasses _ ih =>
    rcases ih with ih | ih
    · by_cases hn : node = label
      · subst hn
        rw [hlabel, some.injEq] at hnode
        subst hnode
        exact .inr ⟨antecedent, hedge, ih⟩
      · refine .inl (.step ?_ hnode hedge hpasses ih)
        rintro (h | h)
        · exact hn h
        · exact havoid h
    · exact .inr ih

variable {row : FlowNode}

/-- An atom that reaches a node other than `START` was installed there or came over an edge. -/
theorem Reaches.cases_row (hrow : graph.nodes[node]? = some row) (hstart : node ≠ .start)
    (h : graph.Reaches passes symbol avoid node atom) :
    (∃ assigned antecedent, row = .assignment symbol assigned antecedent ∧
      atom ∈ (assigned.getD (graph.declared symbol)).atoms) ∨
    ∃ antecedent ∈ row.antecedents, passes row atom ∧
      graph.Reaches passes symbol avoid antecedent atom := by
  cases h with
  | start hatom => exact absurd rfl hstart
  | @assigned _ antecedent assigned _ havoid hnode hatom =>
    rw [hrow, some.injEq] at hnode
    exact .inl ⟨assigned, antecedent, hnode, hatom⟩
  | @step _ antecedent row' _ havoid hnode hedge hpasses h =>
    rw [hrow, some.injEq] at hnode
    subst hnode
    exact .inr ⟨antecedent, hedge, hpasses, h⟩

/-- Nothing reaches a slot outside the arena. -/
theorem Reaches.row_ne_none (hstart : node ≠ .start)
    (h : graph.Reaches passes symbol avoid node atom) : graph.nodes[node]? ≠ none := by
  cases h with
  | start hatom => exact absurd rfl hstart
  | assigned havoid hnode hatom => simp [hnode]
  | step havoid hnode hedge hpasses h => simp [hnode]

/-! ## §2 Where `unknown` is met -/

variable (graph) in
/-- The type of the symbol at a node is computed from its type at an antecedent. -/
def Continues (symbol : SymbolId) (antecedent node : FlowNodeId) : Prop :=
  ∃ row, graph.nodes[node]? = some row ∧ antecedent ∈ row.antecedents ∧
    ∀ assigned before, row ≠ .assignment symbol assigned before

variable (graph) in
/-- `unknown` is passed on from a node to another, over any number of edges. -/
def LeadsUnknown (symbol : SymbolId) : FlowNodeId → FlowNodeId → Prop :=
  Relation.ReflTransGen fun antecedent node => ∃ row, graph.nodes[node]? = some row ∧
    antecedent ∈ row.antecedents ∧ graph.LetsThrough symbol row .unknown

variable (graph) in
/-- The type at one of the pre edges of a label is computed from the type at a node. -/
def LeadsToPre (symbol : SymbolId) (node label : FlowNodeId) : Prop :=
  ∃ pre back, graph.nodes[label]? = some (.loopLabel pre back) ∧
    ∃ edge ∈ pre, Relation.ReflTransGen (graph.Continues symbol) node edge

variable (graph) in
/-- The nodes where `unknown` enters: the sentinels, which resolve to the declared type, the
assignments that install it, and the loop labels that lead to a pre edge of their own, which
finds the declared type under the label as a placeholder. -/
def UnknownEnters (symbol : SymbolId) (node : FlowNodeId) : Prop :=
  (node = .start ∨ node = .unreachable) ∧ graph.declared symbol = .unknown ∨
  (∃ assigned antecedent, graph.nodes[node]? = some (.assignment symbol assigned antecedent) ∧
    assigned.getD (graph.declared symbol) = .unknown) ∨
  graph.declared symbol = .unknown ∧ graph.LeadsToPre symbol node node

variable (graph) in
/-- `unknown` reaches a node from a node where it enters. -/
def MeetsUnknown (symbol : SymbolId) (node : FlowNodeId) : Prop :=
  ∃ origin, graph.UnknownEnters symbol origin ∧ graph.LeadsUnknown symbol origin node

variable (graph) in
/-- A guard on the symbol keeps `unknown`, if `unknown` can reach the guard at all. -/
def KeepsUnknownAt (symbol : SymbolId) (row : FlowNode) : Prop :=
  match row with
  | .condition guarded op positive antecedent =>
    guarded = symbol → graph.MeetsUnknown symbol antecedent →
      ∀ keeps, graph.guard op positive = some keeps → keeps .unknown = true
  | _ => True

variable (graph) in
/-- The guards on a path keep an `unknown` that can reach them.  Guards before the last
assignment to the symbol do not matter. -/
def KeepsUnknown (symbol : SymbolId) (entered : List FlowNodeId) : Prop :=
  ∀ before node after row, entered = before ++ node :: after → graph.nodes[node]? = some row →
    (∀ later ∈ after, ∀ assigned antecedent,
      graph.nodes[later]? ≠ some (.assignment symbol assigned antecedent)) →
    graph.KeepsUnknownAt symbol row

variable (graph) in
/-- A row passes an atom on, and covers it when the type before the row is `unknown`. -/
def PassesOn (symbol : SymbolId) (row : FlowNode) (atom : Atom) : Prop :=
  graph.LetsThrough symbol row atom ∧ graph.KeepsUnknownAt symbol row

variable {entered : List FlowNodeId}

/-- The condition on the last node of a path. -/
theorem KeepsUnknown.last (h : graph.KeepsUnknown symbol (entered ++ [node]))
    (hrow : graph.nodes[node]? = some row) :
    graph.KeepsUnknownAt symbol row :=
  h entered node [] row rfl hrow (by simp)

/-- One more node on a path; after an assignment to the symbol nothing before it matters. -/
theorem keepsUnknown_snoc
    (hrow : graph.nodes[node]? = some row) (hat : graph.KeepsUnknownAt symbol row)
    (h : (∀ assigned antecedent, row ≠ .assignment symbol assigned antecedent) →
      graph.KeepsUnknown symbol entered) :
    graph.KeepsUnknown symbol (entered ++ [node]) := by
  intro before found after row' heq hrow' hlast
  rcases eq_nil_or_concat after with rfl | ⟨init, last, rfl⟩
  · obtain ⟨-, hfound⟩ := append_inj' heq rfl
    obtain rfl := singleton_inj.mp hfound
    rw [hrow, some.injEq] at hrow'
    exact hrow' ▸ hat
  · rw [concat_eq_append] at heq hlast
    rw [← cons_append, ← append_assoc] at heq
    obtain ⟨hentered, hfound⟩ := append_inj' heq rfl
    obtain rfl := singleton_inj.mp hfound
    refine h ?_ before found init row' hentered hrow' fun later hlater =>
      hlast later (by simp [hlater])
    rintro assigned antecedent rfl
    exact hlast node (by simp) assigned antecedent hrow

/-- A path that does not end with an assignment to the symbol can be cut back by one node. -/
theorem KeepsUnknown.dropLast (h : graph.KeepsUnknown symbol (entered ++ [node]))
    (hrow : graph.nodes[node]? = some row)
    (hassign : ∀ assigned antecedent, row ≠ .assignment symbol assigned antecedent) :
    graph.KeepsUnknown symbol entered := by
  rintro before n after row' rfl hrow' hlast
  refine h before n (after ++ [node]) row' (by simp) hrow' ?_
  intro later hlater assigned antecedent hassigned
  rcases mem_append.mp hlater with hlater | hlater
  · exact hlast later hlater assigned antecedent hassigned
  · rw [mem_singleton.mp hlater, hrow, some.injEq] at hassigned
    exact hassign assigned antecedent hassigned

/-- The members along a path reach its end. -/
theorem reaches_of_path (hpath : Path graph.nodes .start node entered)
    (hkeeps : graph.KeepsUnknown symbol entered)
    (hatom : atom ∈ (graph.typeAlong symbol entered).atoms) :
    graph.Reaches (graph.PassesOn symbol) symbol ∅ node atom := by
  induction hpath generalizing atom with
  | nil => exact .start hatom
  | @snoc last next entered row hpath hrow hedge ih =>
    simp only [typeAlong, foldl_append, foldl_cons, foldl_nil] at hatom
    -- what the last node lets through comes from the path before it
    have hthrough : (∀ assigned antecedent, row ≠ .assignment symbol assigned antecedent) →
        graph.LetsThrough symbol row atom → atom ∈ (graph.typeAlong symbol entered).atoms →
        graph.Reaches (graph.PassesOn symbol) symbol ∅ next atom :=
      fun hassign hthrough hbefore => .step (by simp) hrow hedge ⟨hthrough, hkeeps.last hrow⟩
        (ih (hkeeps.dropLast hrow hassign) hbefore)
    unfold transfer at hatom
    cases row with
    | assignment target assigned antecedent =>
      simp only [hrow] at hatom
      by_cases htarget : target = symbol
      · subst htarget
        rw [if_pos rfl] at hatom
        exact .assigned (by simp) hrow hatom
      · rw [if_neg htarget] at hatom
        refine hthrough ?_ htarget hatom
        rintro _ _ ⟨rfl⟩
        exact htarget rfl
    | condition guarded op positive antecedent =>
      simp only [hrow] at hatom
      by_cases hguarded : guarded = symbol
      · rw [if_pos hguarded, narrowBy] at hatom
        cases hguard : graph.guard op positive with
        | none =>
          rw [hguard] at hatom
          refine hthrough (fun _ _ h => by cases h) ?_ hatom
          intro _ keeps hkeeps
          rw [hguard] at hkeeps
          cases hkeeps
        | some keeps =>
          rw [hguard] at hatom
          obtain ⟨hbefore, hpass⟩ := mem_atoms_narrow.mp hatom
          refine hthrough (fun _ _ h => by cases h) ?_ hbefore
          intro _ keeps' hkeeps'
          rw [hguard, some.injEq] at hkeeps'
          exact hkeeps' ▸ hpass
      · rw [if_neg hguarded] at hatom
        exact hthrough (fun _ _ h => by cases h) (fun h => absurd h hguarded) hatom
    | unreachable => simp [antecedents] at hedge
    | start => simp [antecedents] at hedge
    | branchLabel antecedents =>
      simp only [hrow] at hatom
      exact hthrough (fun _ _ h => by cases h) trivial hatom
    | loopLabel pre back =>
      simp only [hrow] at hatom
      exact hthrough (fun _ _ h => by cases h) trivial hatom

/-! ## §3 Covered types -/

variable (graph) in
/-- A type for a node covers what reaches the node without the labels in flight. -/
structure Covered (symbol : SymbolId) (avoid : Set FlowNodeId) (node : FlowNodeId)
    (ty : FlowType) : Prop where
  covers : ∀ atom, graph.Reaches (graph.PassesOn symbol) symbol avoid node atom → ty.Covers atom
  unknown : ty = .unknown → graph.MeetsUnknown symbol node

/-- The labels of which the symbol's type is in flight. -/
def inFlight (state : FlowState) (symbol : SymbolId) : Set FlowNodeId :=
  {label | (state.provisional label symbol).isSome}

variable (graph) in
/-- The invariant of the tables: durable entries cover every path, and no label is in flight
outside a fixpoint. -/
structure CoverInv (state : FlowState) : Prop where
  memo : ∀ node symbol ty, state.memo node symbol = some ty → graph.Covered symbol ∅ node ty
  idle : state.loopDepth = 0 → ∀ node symbol, state.provisional node symbol = none

theorem meetsUnknown_of_enters (h : graph.UnknownEnters symbol node) :
    graph.MeetsUnknown symbol node :=
  ⟨node, h, .refl⟩

/-- `unknown` goes on over an edge that passes it on. -/
theorem MeetsUnknown.step {antecedent : FlowNodeId} (h : graph.MeetsUnknown symbol antecedent)
    (hrow : graph.nodes[node]? = some row) (hedge : antecedent ∈ row.antecedents)
    (hthrough : graph.LetsThrough symbol row .unknown) :
    graph.MeetsUnknown symbol node := by
  obtain ⟨origin, horigin, hleads⟩ := h
  exact ⟨origin, horigin, hleads.tail ⟨row, hrow, hedge, hthrough⟩⟩

theorem covers_of_forall₂ {edges : List FlowNodeId} {parts : List FlowType}
    (h : List.Forall₂ (graph.Covered symbol avoid) edges parts) {edge : FlowNodeId}
    (hedge : edge ∈ edges)
    (hreach : graph.Reaches (graph.PassesOn symbol) symbol avoid edge atom) :
    ∃ part ∈ parts, part.Covers atom := by
  induction h with
  | nil => cases hedge
  | @cons first part edges parts hpart _ ih =>
    rcases mem_cons.mp hedge with rfl | hedge
    · exact ⟨part, mem_cons_self, hpart.covers atom hreach⟩
    · obtain ⟨found, hfound, hcovers⟩ := ih hedge
      exact ⟨found, mem_cons_of_mem _ hfound, hcovers⟩

/-- A label that joins its antecedents is `unknown` only where `unknown` is met. -/
theorem meetsUnknown_of_forall₂ {edges : List FlowNodeId} {parts : List FlowType}
    (h : List.Forall₂ (graph.Covered symbol avoid) edges parts)
    (hunknown : .unknown ∈ parts) (hrow : graph.nodes[node]? = some row)
    (hedges : edges ⊆ row.antecedents) (hthrough : graph.LetsThrough symbol row .unknown) :
    graph.MeetsUnknown symbol node := by
  induction h with
  | nil => cases hunknown
  | cons hpart _ ih =>
    rw [cons_subset] at hedges
    rcases mem_cons.mp hunknown with heq | hunknown
    · exact (hpart.unknown heq.symm).step hrow hedges.1 hthrough
    · exact ih hunknown hedges.2

variable {ty : FlowType}

/-- **The type computed for a node covers what reaches it**, when the types of its
antecedents do. -/
theorem covered_of_computed (hstart : node ≠ .start)
    (h : graph.Computed symbol (graph.Covered symbol avoid) node ty) :
    graph.Covered symbol avoid node ty := by
  unfold Computed at h
  cases hrow : graph.nodes[node]? with
  | none =>
    simp only [hrow] at h
    exact ⟨fun _ hreach => absurd hrow (hreach.row_ne_none hstart), by rintro rfl; cases h⟩
  | some row =>
    simp only [hrow] at h
    cases row with
    | unreachable =>
      refine ⟨?_, by rintro rfl; cases h⟩
      intro atom hreach
      rcases hreach.cases_row hrow hstart with ⟨_, _, heq, -⟩ | ⟨_, hedge, -⟩
      · cases heq
      · simp [antecedents] at hedge
    | start =>
      refine ⟨?_, by rintro rfl; cases h⟩
      intro atom hreach
      rcases hreach.cases_row hrow hstart with ⟨_, _, heq, -⟩ | ⟨_, hedge, -⟩
      · cases heq
      · simp [antecedents] at hedge
    | loopLabel pre back => exact h.elim
    | assignment target assigned antecedent =>
      simp only at h
      by_cases htarget : target = symbol
      · subst htarget
        rw [if_pos rfl] at h
        subst h
        refine ⟨?_, ?_⟩
        · intro atom hreach
          rcases hreach.cases_row hrow hstart with ⟨_, _, heq, hatom⟩ | ⟨_, _, hpasses, -⟩
          · cases heq
            exact .of_mem hatom
          · exact absurd rfl hpasses.1
        · intro hunknown
          exact meetsUnknown_of_enters (.inr (.inl ⟨assigned, antecedent, hrow, hunknown⟩))
      · rw [if_neg htarget] at h
        refine ⟨?_, fun hunknown => (h.unknown hunknown).step hrow (by simp [antecedents]) htarget⟩
        intro atom hreach
        rcases hreach.cases_row hrow hstart with ⟨_, _, heq, -⟩ | ⟨edge, hedge, -, hreach⟩
        · cases heq
          exact absurd rfl htarget
        · rw [antecedents, mem_singleton] at hedge
          exact h.covers atom (hedge ▸ hreach)
    | condition guarded op positive antecedent =>
      simp only at h
      obtain ⟨base, hbase, rfl⟩ := h
      have hedge : antecedent ∈ (FlowNode.condition guarded op positive antecedent).antecedents := by
        simp [antecedents]
      by_cases hguarded : guarded = symbol
      · subst hguarded
        rw [if_pos rfl]
        refine ⟨?_, ?_⟩
        · intro atom hreach
          rcases hreach.cases_row hrow hstart with ⟨_, _, heq, -⟩ | ⟨edge, hedge, hpasses, hreach⟩
          · cases heq
          rw [antecedents, mem_singleton] at hedge
          subst hedge
          have hcovers := hbase.covers atom hreach
          unfold narrowBy
          cases hguard : graph.guard op positive with
          | none => exact hcovers
          | some keeps =>
            refine covers_narrow ?_ (hpasses.1 rfl keeps hguard) hcovers
            -- an `unknown` before the guard was met there, so the guard keeps it
            intro hunknown
            exact hpasses.2 rfl (hbase.unknown hunknown) keeps hguard
        · intro hunknown
          unfold narrowBy at hunknown
          cases hguard : graph.guard op positive with
          | none =>
            rw [hguard] at hunknown
            refine (hbase.unknown hunknown).step hrow hedge ?_
            intro _ keeps hkeeps
            rw [hguard] at hkeeps
            cases hkeeps
          | some keeps =>
            rw [hguard] at hunknown
            obtain ⟨hbefore, hkept⟩ := unknown_of_narrow hunknown
            refine (hbase.unknown hbefore).step hrow hedge ?_
            intro _ keeps' hkeeps'
            rw [hguard, some.injEq] at hkeeps'
            exact .inr (.inr (hkeeps' ▸ hkept))
      · rw [if_neg hguarded]
        refine ⟨?_, fun hunknown => (hbase.unknown hunknown).step hrow hedge
          fun h => absurd h hguarded⟩
        intro atom hreach
        rcases hreach.cases_row hrow hstart with ⟨_, _, heq, -⟩ | ⟨edge, hedge, -, hreach⟩
        · cases heq
        · rw [antecedents, mem_singleton] at hedge
          exact hbase.covers atom (hedge ▸ hreach)
    | branchLabel antecedents =>
      simp only at h
      obtain ⟨parts, hparts, rfl⟩ := h
      refine ⟨?_, fun hunknown =>
        meetsUnknown_of_forall₂ hparts (unknown_of_unionAll hunknown) hrow (Subset.refl _) trivial⟩
      intro atom hreach
      rcases hreach.cases_row hrow hstart with ⟨_, _, heq, -⟩ | ⟨edge, hedge, -, hreach⟩
      · cases heq
      · obtain ⟨part, hpart, hcovers⟩ := covers_of_forall₂ hparts hedge hreach
        exact covers_unionAll hpart hcovers

/-! ## §4 A loop label -/

section Loop

variable {state : FlowState}

theorem inFlight_of_grows {before after : FlowState} (h : Grows before after) :
    inFlight after symbol = inFlight before symbol := by
  unfold inFlight
  rw [h.provisional]

/-- Putting one more label in flight. -/
theorem inFlight_insert {label : FlowNodeId} {ty : FlowType} {after : FlowState}
    (h : after.provisional = state.provisional.insert label symbol ty) :
    inFlight after symbol = insert label (inFlight state symbol) := by
  ext n
  simp only [inFlight, h, FlowTable.insert, Set.mem_ofPred_eq, Set.mem_insert_iff, and_true]
  by_cases hn : n = label
  · simp [hn]
  · simp [hn]

variable (graph) in
/-- The number of nodes that could still go in flight: the measure of the nested fixpoints. -/
def idleNodes (symbol : SymbolId) (state : FlowState) : Nat :=
  ((Finset.range graph.nodes.length).filter
    (fun n => state.provisional n symbol = none)).card

theorem idleNodes_of_grows {before after : FlowState} (h : Grows before after) :
    graph.idleNodes symbol after = graph.idleNodes symbol before := by
  unfold idleNodes
  rw [h.provisional]

section Idle

variable {label : FlowNodeId}

theorem idleNodes_insert_lt {ty : FlowType} {after : FlowState}
    (hlabel : label < graph.nodes.length) (hidle : state.provisional label symbol = none)
    (h : after.provisional = state.provisional.insert label symbol ty) :
    graph.idleNodes symbol after < graph.idleNodes symbol state := by
  refine Finset.card_lt_card (Finset.ssubset_iff_subset_ne.mpr ⟨?_, ?_⟩)
  · intro n hn
    simp only [Finset.mem_filter, h] at hn ⊢
    refine ⟨hn.1, ?_⟩
    by_cases hlabel : n = label
    · exact hlabel ▸ hidle
    · rw [FlowTable.insert_ne _ _ (fun h => hlabel h.1)] at hn
      exact hn.2
  · intro heq
    have hmem : label ∈ (Finset.range graph.nodes.length).filter
        (fun n => state.provisional n symbol = none) := by simp [hlabel, hidle]
    rw [← heq] at hmem
    simp [h] at hmem

/-- The tables after a label is resolved are those before it, with more memo entries. -/
theorem provisional_leaveLoop {ty result : FlowType} {last : FlowState}
    (hidle : state.provisional label symbol = none)
    (h : last.provisional = state.provisional.insert label symbol ty) :
    (leaveLoop last label symbol result).provisional = state.provisional := by
  have hremove : last.provisional.remove label symbol = state.provisional := by
    funext n s
    unfold FlowTable.remove
    split
    · rename_i heq
      rw [heq.1, heq.2, hidle]
    · rename_i heq
      rw [h, FlowTable.insert_ne _ _ heq]
  unfold leaveLoop
  dsimp only
  split <;> exact hremove

theorem loopDepth_leaveLoop {result : FlowType} {last : FlowState}
    (h : last.loopDepth = state.loopDepth + 1) :
    (leaveLoop last label symbol result).loopDepth = state.loopDepth := by
  unfold leaveLoop
  dsimp only
  split <;> simp [h]

/-- The memo after a label is resolved. -/
theorem memo_leaveLoop {result : FlowType} {last : FlowState}
    (h : last.loopDepth = state.loopDepth + 1) :
    (leaveLoop last label symbol result).memo =
      if state.loopDepth = 0 then last.memo.insert label symbol result else last.memo := by
  unfold leaveLoop
  dsimp only
  rw [h, Nat.add_sub_cancel]
  split <;> rfl

/-- The seed replaces the placeholder in the provisional table. -/
theorem provisional_seedLoop (seed : FlowType) {mid : FlowState}
    (hpre : Grows (graph.enterLoop state label symbol) mid) :
    (seedLoop mid label symbol seed).provisional = state.provisional.insert label symbol seed := by
  show mid.provisional.insert label symbol seed = _
  rw [hpre.provisional]
  funext n s
  unfold enterLoop FlowTable.insert
  dsimp only
  split <;> rfl

/-- A whole nested resolution: from entering the label to leaving it the tables only grow. -/
theorem grows_unroll {seed : FlowType} (result : FlowType) {mid last : FlowState}
    (hlookup : graph.flowLookupCached state label symbol = none)
    (hpre : Grows (graph.enterLoop state label symbol) mid)
    (hback : Grows (seedLoop mid label symbol seed) last) :
    last.provisional = state.provisional.insert label symbol seed ∧
      last.loopDepth = state.loopDepth + 1 ∧
      Grows state (leaveLoop last label symbol result) := by
  obtain ⟨hidle, hmemo⟩ := tables_of_lookup_none hlookup
  have hprovisional : last.provisional = state.provisional.insert label symbol seed :=
    hback.provisional.trans (provisional_seedLoop seed hpre)
  have hdepth : last.loopDepth = state.loopDepth + 1 :=
    hback.loopDepth.trans (hpre.loopDepth)
  refine ⟨hprovisional, hdepth, provisional_leaveLoop hidle hprovisional,
    loopDepth_leaveLoop hdepth, ?_⟩
  intro n s ty hty
  have hlast : last.memo n s = some ty := hback.memo n s ty (hpre.memo n s ty hty)
  rw [memo_leaveLoop hdepth]
  split
  · rw [FlowTable.insert_ne]
    · exact hlast
    · rintro ⟨rfl, rfl⟩
      rw [hmemo] at hty
      cases hty
  · exact hlast

end Idle

end Loop

/-! ## §5 Every type the walk computes is covered -/

variable (graph) in
/-- A node that a call can ask for: a label in flight that holds `unknown` meets it, or holds
it as a placeholder and waits for a pre edge that the node leads to. -/
def Asked (symbol : SymbolId) (state : FlowState) (node : FlowNodeId) : Prop :=
  ∀ label, state.provisional label symbol = some .unknown →
    graph.MeetsUnknown symbol label ∨
      graph.declared symbol = .unknown ∧ graph.LeadsToPre symbol node label

variable (graph) in
/-- What is known of the type of a node during a call. -/
def CoverKnown (symbol : SymbolId) (state : FlowState) (node : FlowNodeId) (ty : FlowType) :
    Prop :=
  graph.Asked symbol state node → graph.Covered symbol (inFlight state symbol) node ty

theorem CoverKnown.of_grows {before after : FlowState} (h : Grows before after)
    (hknown : graph.CoverKnown symbol before node ty) : graph.CoverKnown symbol after node ty := by
  unfold CoverKnown Asked at hknown ⊢
  rwa [h.provisional, inFlight_of_grows h]

variable (graph) in
/-- The invariant of the tables, with a bound for the labels that are not in flight. -/
def CoverBound (symbol : SymbolId) (bound : Nat) (state : FlowState) : Prop :=
  graph.CoverInv state ∧ graph.idleNodes symbol state ≤ bound

variable {state : FlowState}

/-- A call that asks for a node asks for its antecedents. -/
theorem Asked.antecedent {antecedent : FlowNodeId} (h : graph.Asked symbol state node)
    (hcontinues : graph.Continues symbol antecedent node) :
    graph.Asked symbol state antecedent := by
  intro label hlabel
  rcases h label hlabel with hmeets | ⟨hdeclared, pre, back, hrow, edge, hedge, hleads⟩
  · exact .inl hmeets
  · exact .inr ⟨hdeclared, pre, back, hrow, edge, hedge, hleads.head hcontinues⟩

theorem continues_loopLabel {label edge : FlowNodeId} {pre back : List FlowNodeId}
    (hnode : graph.nodes[label]? = some (.loopLabel pre back)) (hedge : edge ∈ pre ++ back) :
    graph.Continues symbol edge label :=
  ⟨_, hnode, hedge, fun _ _ h => by cases h⟩

/-- Outside a fixpoint every node can be asked for. -/
theorem CoverInv.asked (hinv : graph.CoverInv state) (hdepth : state.loopDepth = 0) :
    graph.Asked symbol state node := by
  intro label hlabel
  rw [hinv.idle hdepth label symbol] at hlabel
  cases hlabel

theorem CoverInv.inFlight_eq_empty (hinv : graph.CoverInv state) (hdepth : state.loopDepth = 0) :
    inFlight state symbol = ∅ := by
  ext n
  simp [inFlight, hinv.idle hdepth]

/-- The types of the antecedents that are asked for are covered. -/
theorem covered_of_known {edges : List FlowNodeId} {parts : List FlowType}
    (h : List.Forall₂ (graph.CoverKnown symbol state) edges parts)
    (hasked : ∀ edge ∈ edges, graph.Asked symbol state edge) :
    List.Forall₂ (graph.Covered symbol (inFlight state symbol)) edges parts := by
  induction h with
  | nil => exact .nil
  | cons hpart _ ih =>
    rw [forall_mem_cons] at hasked
    exact .cons (hpart hasked.1) (ih hasked.2)

theorem CoverInv.lookup (hordered : graph.Ordered) (hinv : graph.CoverInv state)
    (h : graph.flowLookupCached state node symbol = some ty) :
    graph.CoverKnown symbol state node ty := by
  intro hasked
  unfold flowLookupCached at h
  by_cases hsentinel : node = .start ∨ node = .unreachable
  · rw [if_pos hsentinel, some.injEq] at h
    subst h
    refine ⟨?_, fun hunknown => meetsUnknown_of_enters (.inl ⟨hsentinel, hunknown⟩)⟩
    intro atom hreach
    cases hreach with
    | start hatom => exact .of_mem hatom
    | assigned _ hnode _ =>
      rcases hsentinel with rfl | rfl
      · rw [hordered.start] at hnode
        cases hnode
      · rw [hordered.unreachable] at hnode
        cases hnode
    | step _ hnode hedge _ _ =>
      rcases hsentinel with rfl | rfl
      · rw [hordered.start, some.injEq] at hnode
        subst hnode
        simp [antecedents] at hedge
      · rw [hordered.unreachable, some.injEq] at hnode
        subst hnode
        simp [antecedents] at hedge
  · rw [if_neg hsentinel] at h
    have hstart := (not_or.mp hsentinel).1
    cases hprovisional : state.provisional node symbol with
    | some found =>
      simp only [hprovisional, some.injEq] at h
      subst h
      refine ⟨?_, ?_⟩
      · intro atom hreach
        exact absurd (by simp [inFlight, hprovisional]) (hreach.not_mem hstart)
      · -- a placeholder that is found leads to a pre edge of its own label
        rintro rfl
        rcases hasked node hprovisional with hmeets | hplaceholder
        · exact hmeets
        · exact meetsUnknown_of_enters (.inr (.inr hplaceholder))
    | none =>
      simp only [hprovisional] at h
      have hmemo := hinv.memo node symbol ty h
      refine ⟨?_, hmemo.unknown⟩
      intro atom hreach
      exact hmemo.covers atom (hreach.mono (Set.empty_subset _))

/-- Recording a covered type keeps the invariant. -/
theorem CoverInv.flowSet (hinv : graph.CoverInv state)
    (hknown : graph.CoverKnown symbol state node ty) :
    graph.CoverInv (flowSet state node symbol ty) := by
  unfold FlowGraph.flowSet
  split
  · rename_i hdepth
    refine ⟨?_, hinv.idle⟩
    intro n s t ht
    change state.memo.insert node symbol ty n s = some t at ht
    by_cases heq : n = node ∧ s = symbol
    · obtain ⟨rfl, rfl⟩ := heq
      rw [FlowTable.insert_self, some.injEq] at ht
      subst ht
      exact hinv.inFlight_eq_empty hdepth ▸ hknown (hinv.asked hdepth)
    · rw [FlowTable.insert_ne _ _ heq] at ht
      exact hinv.memo n s t ht
  · exact hinv

/-- Inside a fixpoint only the memo counts. -/
theorem CoverInv.of_memo {state after : FlowState} (hinv : graph.CoverInv state)
    (hmemo : after.memo = state.memo) (hdepth : after.loopDepth ≠ 0) : graph.CoverInv after := by
  refine ⟨?_, fun h => absurd h hdepth⟩
  intro n s t ht
  rw [hmemo] at ht
  exact hinv.memo n s t ht

/-- One more label in flight: it meets the `unknown` it holds, or the node leads to one of its
pre edges. -/
theorem Asked.insert {state after : FlowState} {label : FlowNodeId}
    (h : graph.Asked symbol state node)
    (hprovisional : after.provisional = state.provisional.insert label symbol ty)
    (hlabel : ty = .unknown → graph.MeetsUnknown symbol label ∨
      graph.declared symbol = .unknown ∧ graph.LeadsToPre symbol node label) :
    graph.Asked symbol after node := by
  intro other hother
  rw [hprovisional] at hother
  by_cases heq : other = label
  · subst heq
    rw [FlowTable.insert_self, some.injEq] at hother
    exact hlabel hother
  · rw [FlowTable.insert_ne _ _ (fun h => heq h.1)] at hother
    exact h other hother

/-- **A loop label resolves to a covered type**, when calls with one more label in flight do. -/
theorem coverLoop {bound : Nat} (hordered : graph.Ordered) {label : FlowNodeId}
    {pre back : List FlowNodeId}
    (rules : graph.WalkRules symbol (graph.CoverBound symbol bound) (graph.CoverKnown symbol))
    (hinv : graph.CoverBound symbol (bound + 1) state)
    (hlookup : graph.flowLookupCached state label symbol = none)
    (hnode : graph.nodes[label]? = some (.loopLabel pre back)) :
    ∃ ty after, graph.LoopsTo label symbol state (ty, after) ∧
      graph.CoverBound symbol (bound + 1) after ∧ Grows state after ∧
      graph.CoverKnown symbol after label ty := by
  obtain ⟨hidle, -⟩ := tables_of_lookup_none hlookup
  obtain ⟨hstart, -⟩ := not_sentinel_of_lookup_none hlookup
  have hlabel : label < graph.nodes.length := (List.getElem?_eq_some_iff.mp hnode).1
  -- the pre edges, with the placeholder under the label
  have hinv₀ : graph.CoverBound symbol bound (graph.enterLoop state label symbol) :=
    ⟨hinv.1.of_memo rfl (by simp [enterLoop]),
      Nat.le_of_lt_succ ((idleNodes_insert_lt hlabel hidle rfl).trans_le hinv.2)⟩
  obtain ⟨preParts, mid, hpre, hinv₁, hgrows₁, hpreKnown⟩ :=
    allResolveTo_of_rules rules hordered.descending hinv₀ pre
  have hflight₁ : inFlight mid symbol = insert label (inFlight state symbol) := by
    rw [inFlight_of_grows hgrows₁]
    exact inFlight_insert rfl
  have hpreParts : graph.Asked symbol state label →
      List.Forall₂ (graph.Covered symbol (insert label (inFlight state symbol))) pre preParts := by
    intro hasked
    rw [← hflight₁]
    refine covered_of_known hpreKnown ?_
    intro edge hedge
    refine (hasked.antecedent (continues_loopLabel hnode (mem_append_left _ hedge))).insert
      (hgrows₁.provisional.trans rfl) ?_
    exact fun hdeclared => .inr ⟨hdeclared, pre, back, hnode, edge, hedge, .refl⟩
  have hseedUnknown : graph.Asked symbol state label → unionAll preParts = .unknown →
      graph.MeetsUnknown symbol label :=
    fun hasked h => meetsUnknown_of_forall₂ (hpreParts hasked) (unknown_of_unionAll h) hnode
      (subset_append_left pre back) trivial
  -- the back edges, with the seed under the label
  have hmidDepth : mid.loopDepth ≠ 0 := by
    rw [hgrows₁.loopDepth]
    simp [enterLoop]
  have hseed := provisional_seedLoop (unionAll preParts) hgrows₁
  have hinv₂ : graph.CoverBound symbol bound
      (seedLoop mid label symbol (unionAll preParts)) :=
    ⟨hinv₁.1.of_memo rfl hmidDepth,
      Nat.le_of_lt_succ ((idleNodes_insert_lt hlabel hidle hseed).trans_le hinv.2)⟩
  obtain ⟨parts, last, hback, hinv₃, hgrows₂, hbackKnown⟩ :=
    allResolveTo_of_rules rules hordered.descending hinv₂ back
  obtain ⟨hprovisional, hdepth, hgrows⟩ := grows_unroll
    (unionAll (unionAll preParts :: parts)) hlookup hgrows₁ hgrows₂
  have hflight₂ : inFlight last symbol = insert label (inFlight state symbol) :=
    inFlight_insert hprovisional
  have hparts : graph.Asked symbol state label →
      List.Forall₂ (graph.Covered symbol (insert label (inFlight state symbol))) back parts := by
    intro hasked
    rw [← hflight₂]
    refine covered_of_known hbackKnown ?_
    intro edge hedge
    exact (hasked.antecedent (continues_loopLabel hnode (mem_append_right _ hedge))).insert
      hprovisional fun h => .inl (hseedUnknown hasked h)
  -- the result covers every first arrival at the label
  have hknown : graph.CoverKnown symbol state label (unionAll (unionAll preParts :: parts)) := by
    intro hasked
    refine ⟨?_, ?_⟩
    · intro atom hreach
      rcases hreach.firstArrival hnode with h | ⟨edge, hedge, hreach⟩
      · exact absurd (Set.mem_insert label _) (h.not_mem hstart)
      rcases mem_append.mp hedge with hedge | hedge
      · obtain ⟨part, hpart, hcovers⟩ := covers_of_forall₂ (hpreParts hasked) hedge hreach
        exact covers_unionAll mem_cons_self
          (covers_unionAll hpart hcovers)
      · obtain ⟨part, hpart, hcovers⟩ := covers_of_forall₂ (hparts hasked) hedge hreach
        exact covers_unionAll (mem_cons_of_mem _ hpart) hcovers
    · intro hunknown
      rcases mem_cons.mp (unknown_of_unionAll hunknown) with h | h
      · exact hseedUnknown hasked h.symm
      · exact meetsUnknown_of_forall₂ (hparts hasked) h hnode
          (subset_append_right pre back) trivial
  refine ⟨_, _, .unroll hnode hlookup hpre hback, ⟨?_, ?_⟩, hgrows, ?_⟩
  · refine ⟨?_, ?_⟩
    · intro n s ty hty
      rw [memo_leaveLoop hdepth] at hty
      split at hty
      · rename_i hzero
        by_cases heq : n = label ∧ s = symbol
        · obtain ⟨rfl, rfl⟩ := heq
          rw [FlowTable.insert_self, some.injEq] at hty
          subst hty
          exact hinv.1.inFlight_eq_empty hzero ▸ hknown (hinv.1.asked hzero)
        · rw [FlowTable.insert_ne _ _ heq] at hty
          exact hinv₃.1.memo n s ty hty
      · exact hinv₃.1.memo n s ty hty
    · rw [hgrows.provisional, hgrows.loopDepth]
      exact hinv.1.idle
  · rw [idleNodes_of_grows hgrows]
    exact hinv.2
  · exact hknown.of_grows hgrows

/-- Only the antecedents that the symbol's type continues from are looked at. -/
theorem computed_imp {known known' : FlowNodeId → FlowType → Prop}
    (himp : ∀ antecedent base, graph.Continues symbol antecedent node →
      known antecedent base → known' antecedent base)
    (h : graph.Computed symbol known node ty) : graph.Computed symbol known' node ty := by
  unfold Computed at h ⊢
  cases hrow : graph.nodes[node]? with
  | none => simpa only [hrow] using h
  | some row =>
    simp only [hrow] at h ⊢
    cases row with
    | unreachable => exact h
    | start => exact h
    | loopLabel pre back => exact h
    | assignment target assigned antecedent =>
      by_cases htarget : target = symbol
      · simpa only [if_pos htarget] using h
      · simp only [if_neg htarget] at h ⊢
        refine himp antecedent ty ⟨_, hrow, by simp [antecedents], ?_⟩ h
        rintro _ _ ⟨rfl⟩
        exact htarget rfl
    | condition guarded op positive antecedent =>
      obtain ⟨base, hbase, hty⟩ := h
      exact ⟨base, himp antecedent base
        ⟨_, hrow, by simp [antecedents], fun _ _ h => by cases h⟩ hbase, hty⟩
    | branchLabel edges =>
      obtain ⟨parts, hparts, hty⟩ := h
      refine ⟨parts, ?_, hty⟩
      rw [List.forall₂_iff_get] at hparts ⊢
      refine ⟨hparts.1, ?_⟩
      intro i hedge hpart
      exact himp _ _ ⟨_, hrow, get_mem edges _, fun _ _ h => by cases h⟩ (hparts.2 i hedge hpart)

/-- The type computed from known antecedents is known. -/
theorem known_of_computed (hstart : node ≠ .start)
    (h : graph.Computed symbol (graph.CoverKnown symbol state) node ty) :
    graph.CoverKnown symbol state node ty := by
  intro hasked
  refine covered_of_computed hstart (computed_imp ?_ h)
  exact fun antecedent _ hcontinues hknown => hknown (hasked.antecedent hcontinues)

/-- Induction on the number of labels that can still go in flight. -/
theorem boundedRules (Inv : FlowState → Prop) (Known : FlowState → FlowNodeId → FlowType → Prop)
    (hgrows : ∀ {before after node ty}, Grows before after → Known before node ty →
      Known after node ty)
    (hcached : ∀ {state node ty}, Inv state → graph.flowLookupCached state node symbol = some ty →
      Known state node ty)
    (hsettle : ∀ {state node ty}, Inv state → graph.flowLookupCached state node symbol = none →
      graph.Computed symbol (Known state) node ty →
      Inv (flowSet state node symbol ty) ∧ Known (flowSet state node symbol ty) node ty)
    (hloop : ∀ {bound}, graph.WalkRules symbol
        (fun state => Inv state ∧ graph.idleNodes symbol state ≤ bound) Known →
      ∀ {state label pre back}, Inv state ∧ graph.idleNodes symbol state ≤ bound + 1 →
      graph.flowLookupCached state label symbol = none →
      graph.nodes[label]? = some (.loopLabel pre back) →
      ∃ ty after, graph.LoopsTo label symbol state (ty, after) ∧
        (Inv after ∧ graph.idleNodes symbol after ≤ bound + 1) ∧ Grows state after ∧
        Known after label ty) (bound : Nat) :
    graph.WalkRules symbol (fun state => Inv state ∧ graph.idleNodes symbol state ≤ bound)
      Known := by
  induction bound with
  | zero =>
    refine ⟨hgrows, fun hinv h => hcached hinv.1 h, fun hinv hlookup hcomputed => ?_, ?_⟩
    · obtain ⟨hafter, hknown⟩ := hsettle hinv.1 hlookup hcomputed
      exact ⟨⟨hafter, idleNodes_of_grows (grows_flowSet _ hlookup) ▸ hinv.2⟩, hknown⟩
    · intro state label pre back hinv hlookup hnode
      have hlabel : label < graph.nodes.length := (List.getElem?_eq_some_iff.mp hnode).1
      have hmem : label ∈ (Finset.range graph.nodes.length).filter
          (fun n => state.provisional n symbol = none) := by
        simp [hlabel, (tables_of_lookup_none hlookup).1]
      exact absurd (Finset.card_pos.mpr ⟨label, hmem⟩) (Nat.not_lt.mpr hinv.2)
  | succ bound ih =>
    refine ⟨hgrows, fun hinv h => hcached hinv.1 h, fun hinv hlookup hcomputed => ?_, hloop ih⟩
    obtain ⟨hafter, hknown⟩ := hsettle hinv.1 hlookup hcomputed
    exact ⟨⟨hafter, idleNodes_of_grows (grows_flowSet _ hlookup) ▸ hinv.2⟩, hknown⟩

/-- **Every type the walk computes covers what reaches its node.** -/
theorem coverRules (hordered : graph.Ordered) (symbol : SymbolId) (bound : Nat) :
    graph.WalkRules symbol (graph.CoverBound symbol bound) (graph.CoverKnown symbol) := by
  have hgrows : ∀ {before after node ty}, Grows before after →
      graph.CoverKnown symbol before node ty → graph.CoverKnown symbol after node ty :=
    fun h hknown => hknown.of_grows h
  refine boundedRules graph.CoverInv (graph.CoverKnown symbol) hgrows
    (fun hinv h => hinv.lookup hordered h) ?_ (fun rules _ _ _ _ => coverLoop hordered rules) bound
  intro state node ty hinv hlookup hcomputed
  have hknown : graph.CoverKnown symbol state node ty :=
    known_of_computed (not_sentinel_of_lookup_none hlookup).1 hcomputed
  exact ⟨hinv.flowSet hknown, hgrows (grows_flowSet ty hlookup) hknown⟩

/-! ## §6 Sequences of calls -/

variable (graph) in
/-- The tables between two calls. -/
structure BetweenCalls (state : FlowState) : Prop where
  cover : graph.CoverInv state
  depth : state.loopDepth = 0

theorem betweenCalls_empty : graph.BetweenCalls .empty := by
  refine ⟨⟨?_, ?_⟩, rfl⟩
  · intro node symbol ty h
    cases h
  · intro _ node symbol
    rfl

/-- One call from tables between calls. -/
theorem BetweenCalls.call (hordered : graph.Ordered) (h : graph.BetweenCalls state)
    (node : FlowNodeId) (symbol : SymbolId) :
    ∃ ty after, graph.ResolvesTo node symbol state (ty, after) ∧ graph.BetweenCalls after ∧
      graph.Covered symbol ∅ node ty := by
  obtain ⟨ty, after, hresolves, hinv, hgrows, hknown⟩ := resolvesTo_of_rules
    (coverRules hordered symbol (graph.idleNodes symbol state)) hordered.descending
    ⟨h.cover, le_rfl⟩ node
  have hdepth : after.loopDepth = 0 := hgrows.loopDepth.trans h.depth
  exact ⟨ty, after, hresolves, ⟨hinv.1, hdepth⟩,
    hinv.1.inFlight_eq_empty hdepth ▸ hknown (hinv.1.asked hdepth)⟩

/-- Any sequence of calls terminates between calls. -/
theorem BetweenCalls.calls (hordered : graph.Ordered) (calls : List (FlowNodeId × SymbolId))
    (h : graph.BetweenCalls state) :
    ∃ fuel answers after, graph.resolveCalls fuel calls state = some (answers, after) ∧
      graph.BetweenCalls after := by
  induction calls generalizing state with
  | nil => exact ⟨0, [], state, rfl, h⟩
  | cons call rest ih =>
    obtain ⟨ty, mid, ⟨fuel, hcall⟩, hmid, -⟩ := h.call hordered call.1 call.2
    obtain ⟨fuelRest, answers, after, hrest, hafter⟩ := ih hmid
    exact ⟨fuel + fuelRest, ty :: answers, after, calls_cons _ hcall hrest, hafter⟩

/-- **Flow resolution covers every path.**  After any sequence of calls a further call
terminates, and every union member (with `boolean` read as `true | false`) of the type along
any path from `START` to the node, on which the guards keep the `unknown` they can meet, is a
member of the answer, unless the answer is one of the absorbing types `any` and `unknown`. -/
theorem resolve_covers_paths (graph : FlowGraph) (hshape : graph.WellShaped)
    (earlier : List (FlowNodeId × SymbolId)) (node : FlowNodeId) (symbol : SymbolId) :
    ∃ fuel answers before ty after,
      graph.resolveCalls fuel earlier .empty = some (answers, before) ∧
      graph.resolveNarrowedType fuel node symbol before = some (ty, after) ∧
      ∀ entered, Path graph.nodes .start node entered → graph.KeepsUnknown symbol entered →
        ∀ atom ∈ (graph.typeAlong symbol entered).atoms,
          atom ∈ ty.atoms ∨ ty = .any ∨ ty = .unknown := by
  obtain ⟨fuelEarlier, answers, before, hearlier, hbefore⟩ :=
    betweenCalls_empty.calls hshape.toOrdered earlier
  obtain ⟨ty, after, ⟨fuel, hcall⟩, -, hcovered⟩ := hbefore.call hshape.toOrdered node symbol
  refine ⟨fuelEarlier + fuel, answers, before, ty, after, calls_mono fuel hearlier, ?_, ?_⟩
  · have hcall' := resolve_mono fuelEarlier hcall
    rwa [Nat.add_comm] at hcall'
  · intro entered hpath hkeeps atom hatom
    exact hcovered.covers atom (reaches_of_path hpath hkeeps hatom)

/-- A path ends with the node it leads to. -/
theorem Path.mem_entered {nodes : List FlowNode} {origin last : FlowNodeId}
    (h : Path nodes origin last entered) (hne : last ≠ origin) :
    last ∈ entered := by
  cases h with
  | nil => exact absurd rfl hne
  | snoc => simp

/-- The variable of the examples below. -/
def exampleSymbol : SymbolId := ⟨0, "x"⟩

/-- `x = "s"; while (x) {} x = 5; if (typeof x === "number") {}` with `x: unknown`, as the arena
of its nodes. -/
def whileGraph : FlowGraph where
  nodes := [.unreachable, .start, .assignment exampleSymbol (some (.union {.other 9})) 1,
    .loopLabel [2] [4], .condition exampleSymbol .truthy true 3,
    .condition exampleSymbol .truthy false 3,
    .assignment exampleSymbol (some (.union {.other 8})) 5,
    .condition exampleSymbol (.typeof .number) true 6]
  declared := fun _ => .unknown
  guard := fun op positive => match op with
    | .truthy => some (fun atom => atom != .literal !positive)
    | .typeof .number => some (fun atom => (atom == .other 8) == positive)
    | _ => none

theorem whileGraph_wellShaped : whileGraph.WellShaped := by
  refine ⟨⟨rfl, rfl, ?_⟩, ?_, ?_⟩
  · intro node row hrow hloop antecedent hmem
    have hlt : node < 8 := (List.getElem?_eq_some_iff.mp hrow).1
    interval_cases node <;> simp [whileGraph] at hrow <;> subst hrow <;>
      simp_all [antecedents]
  · intro label pre back hrow antecedent hmem
    have hlt : label < 8 := (List.getElem?_eq_some_iff.mp hrow).1
    interval_cases label <;> simp [whileGraph] at hrow
    obtain ⟨rfl, rfl⟩ := hrow
    simp_all
  · intro label pre back hrow edge hmem entered hpath
    have hlt : label < 8 := (List.getElem?_eq_some_iff.mp hrow).1
    interval_cases label <;> simp [whileGraph] at hrow
    obtain ⟨rfl, rfl⟩ := hrow
    obtain rfl : edge = 4 := by simpa using hmem
    cases hpath with
    | @snoc last _ before row hpath hrow hedge =>
      obtain rfl : row = .condition exampleSymbol .truthy true 3 := by
        simpa [whileGraph] using hrow.symm
      obtain rfl : last = 3 := by simpa [antecedents] using hedge
      exact mem_append_left _ (Path.mem_entered hpath (by decide))

/-- The last guard drops `unknown`, but the assignment before it lets none through. -/
theorem whileGraph_keepsUnknown : whileGraph.KeepsUnknown exampleSymbol [2, 3, 5, 6, 7] := by
  show whileGraph.KeepsUnknown exampleSymbol ([2, 3, 5, 6] ++ [7])
  refine keepsUnknown_snoc rfl ?_ fun _ => ?_
  · rintro - ⟨origin, henters, hleads⟩
    obtain rfl | ⟨before, -, row, hrow, -, hthrough⟩ := hleads.cases_tail
    · rcases henters with ⟨h | h, -⟩ | ⟨assigned, antecedent, hrow, hassigned⟩ |
        ⟨-, pre, back, hrow, -⟩
      · cases h
      · cases h
      · obtain ⟨rfl, -⟩ : some (FlowType.union {.other 8}) = assigned ∧ 5 = antecedent := by
          simpa [whileGraph] using hrow
        cases hassigned
      · simp [whileGraph] at hrow
    · obtain rfl : row = .assignment exampleSymbol (some (.union {.other 8})) 5 := by
        simpa [whileGraph] using hrow.symm
      exact absurd rfl hthrough
  · show whileGraph.KeepsUnknown exampleSymbol ([2, 3, 5] ++ [6])
    exact keepsUnknown_snoc rfl trivial fun h => absurd rfl (h _ _)

/-- The guard behind the loop, asked after the label. -/
theorem resolve_covers_paths_while :
    (Path whileGraph.nodes .start 7 [2, 3, 5, 6, 7] ∧
      whileGraph.KeepsUnknown exampleSymbol [2, 3, 5, 6, 7] ∧
      .other 8 ∈ (whileGraph.typeAlong exampleSymbol [2, 3, 5, 6, 7]).atoms) ∧
    ∃ fuel answers before ty after,
      whileGraph.resolveCalls fuel [(3, exampleSymbol)] .empty = some (answers, before) ∧
      whileGraph.resolveNarrowedType fuel 7 exampleSymbol before = some (ty, after) ∧
      ∀ entered, Path whileGraph.nodes .start 7 entered →
        whileGraph.KeepsUnknown exampleSymbol entered →
        ∀ atom ∈ (whileGraph.typeAlong exampleSymbol entered).atoms,
          atom ∈ ty.atoms ∨ ty = .any ∨ ty = .unknown := by
  refine ⟨⟨?_, whileGraph_keepsUnknown, by decide⟩, resolve_covers_paths whileGraph
    whileGraph_wellShaped [(3, exampleSymbol)] 7 exampleSymbol⟩
  exact .snoc (.snoc (.snoc (.snoc (.snoc .nil rfl (by decide)) rfl (by decide)) rfl (by decide))
    rfl (by decide)) rfl (by decide)

/-- `if (c) x = 5;` with a declared type that absorbs the assigned one. -/
def joinGraph (declared : FlowType) : FlowGraph where
  nodes := [.unreachable, .start, .assignment exampleSymbol (some (.union {.other 8})) 1,
    .branchLabel [1, 2], .condition exampleSymbol (.typeof .number) true 3]
  declared := fun _ => declared
  guard := fun op positive => match op with
    | .typeof .number => some (fun atom => (atom == .other 8) == positive)
    | _ => none

theorem joinGraph_wellShaped (declared : FlowType) : (joinGraph declared).WellShaped := by
  refine ⟨⟨rfl, rfl, ?_⟩, ?_, ?_⟩
  · intro node row hrow hloop antecedent hmem
    have hlt : node < 5 := (List.getElem?_eq_some_iff.mp hrow).1
    interval_cases node <;> simp [joinGraph] at hrow <;> subst hrow <;>
      simp_all [antecedents]
    rcases hmem with rfl | rfl <;> decide
  · intro label pre back hrow
    have hlt : label < 5 := (List.getElem?_eq_some_iff.mp hrow).1
    interval_cases label <;> simp [joinGraph] at hrow
  · intro label pre back hrow
    have hlt : label < 5 := (List.getElem?_eq_some_iff.mp hrow).1
    interval_cases label <;> simp [joinGraph] at hrow

/-- **Absorbed members.**  After `if (c) x = 5;` the path through the assignment gives
`number`; with the declared type `any` the join is `any`, and with `unknown` a `typeof` guard
after the join leaves `never`. -/
theorem join_absorbs_member :
    ((joinGraph .any).WellShaped ∧ Path (joinGraph .any).nodes .start 3 [2, 3] ∧
      .other 8 ∈ ((joinGraph .any).typeAlong exampleSymbol [2, 3]).atoms ∧
      ((joinGraph .any).resolveNarrowedType 20 3 exampleSymbol .empty).map Prod.fst = some .any ∧
      .other 8 ∉ FlowType.any.atoms) ∧
    ((joinGraph .unknown).WellShaped ∧ Path (joinGraph .unknown).nodes .start 4 [2, 3, 4] ∧
      .other 8 ∈ ((joinGraph .unknown).typeAlong exampleSymbol [2, 3, 4]).atoms ∧
      ((joinGraph .unknown).resolveNarrowedType 20 4 exampleSymbol .empty).map Prod.fst = some .never ∧
      .other 8 ∉ FlowType.never.atoms) := by
  have hpath : ∀ declared, Path (joinGraph declared).nodes .start 3 [2, 3] := by
    intro declared
    exact .snoc (.snoc .nil rfl (by decide)) rfl (by decide)
  refine ⟨⟨joinGraph_wellShaped _, hpath _, by decide, by decide +kernel, by decide⟩,
    joinGraph_wellShaped _, ?_, by decide, by decide +kernel, by decide⟩
  exact .snoc (hpath _) rfl (by decide)

/-- `x = 5; while (a) while (b) if (typeof x === "number") {}`, with `x: unknown`: the inner
label is a pre edge away from itself. -/
def nestedGraph : FlowGraph where
  nodes := [.unreachable, .start, .assignment exampleSymbol (some (.union {.other 8})) 1,
    .loopLabel [2] [4], .loopLabel [3] [5], .condition exampleSymbol (.typeof .number) true 4]
  declared := fun _ => .unknown
  guard := (joinGraph .unknown).guard

/-- Here `unknown` enters as the placeholder of the inner label, on no path at all. -/
example : .other 8 ∈ (nestedGraph.typeAlong exampleSymbol [2, 3, 4, 5]).atoms ∧
    (nestedGraph.resolveNarrowedType 30 5 exampleSymbol .empty).map Prod.fst = some .never := by
  decide +kernel

end FlowGraph

end Typokat.Check
