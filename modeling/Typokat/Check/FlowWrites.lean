import Typokat.Check.FlowBodies

/-!
# Assignments and the Type After a Construct

The type resolved for a symbol right after a statement, compared with what an execution of
the statement leaves in the symbol.  Where the builder looks at the last assignment to the
symbol, the type after the statement includes the assigned type; a form that the builder skips
keeps the type from before, whatever it assigns.

## Main Results

- `CoversRun` : the type after a statement includes what an execution assigns
- `writes_covered` : it does, when the last assignment is in sight
- `tracked_writes_covered` : and the skipped forms that assign the symbol lose the assignment
-/

namespace Typokat.Check

open Types Event List FlowGraph

namespace FlowGraph

/-! ## §1 What executions leave in a symbol -/

/-- The type that an event installs for the symbol. -/
def installs (graph : FlowGraph) (symbol : SymbolId) : Event → Option FlowType
  | .assign target assigned =>
    if target = symbol then some (assigned.getD (graph.declared symbol)) else none
  | .hidden target => if target = symbol then some (graph.declared symbol) else none
  | _ => none

/-- An atom of the value that the symbol holds at the end: it belongs to the type installed
last, and passes the guards on the symbol after that. -/
def LeavesAtom (graph : FlowGraph) (symbol : SymbolId) (events : List Event) (atom : Atom) : Prop :=
  ∃ before event after ty, events = before ++ event :: after ∧
    graph.installs symbol event = some ty ∧
    (∀ later ∈ after, graph.installs symbol later = none) ∧
    (∀ op positive keeps, .guard symbol op positive ∈ after →
      graph.guard op positive = some keeps → FlowType.Passes keeps atom) ∧
    atom ∈ ty.atoms

/-- Where the execution and the graph diverge about the symbol, an assignment follows that the
builder looks at. -/
def SeenLast (symbol : SymbolId) (events : List Event) : Prop :=
  ∀ before event after, events = before ++ event :: after →
    event.diverges (· == symbol) = true → ∃ assigned, .assign symbol assigned ∈ after

/-- On the paths of the execution the guards on the symbol keep the `unknown` they can meet. -/
def KeepsOn (graph : FlowGraph) (symbol : SymbolId) (origin last : FlowNodeId) (events : List Event) :
    Prop :=
  ∀ entered, Path graph.nodes origin last entered →
    Matches (· == symbol) events (traceOf graph.nodes entered) → graph.KeepsUnknown symbol entered

/-- **The type resolved at a node includes what an execution leaves in the symbol**: after the
given calls, a further call for the node terminates, and its answer has every atom that the
execution leaves in the symbol, or is one of the absorbing types. -/
def CoversRun (graph : FlowGraph) (symbol : SymbolId) (events : List Event) (node : FlowNodeId)
    (earlier : List (FlowNodeId × SymbolId)) : Prop :=
  ∃ fuel answers before ty after,
    graph.resolveCalls fuel earlier .empty = some (answers, before) ∧
    graph.resolveNarrowedType fuel node symbol before = some (ty, after) ∧
    ∀ atom, graph.LeavesAtom symbol events atom → atom ∈ ty.atoms ∨ ty = .any ∨ ty = .unknown

variable {graph : FlowGraph} {symbol : SymbolId} {atom : Atom}

theorem traceOf_snoc (nodes : List FlowNode) (entered : List FlowNodeId) {next : FlowNodeId}
    {row : FlowNode} (hrow : nodes[next]? = some row) :
    traceOf nodes (entered ++ [next]) = traceOf nodes entered ++ row.event.toList := by
  rw [traceOf, filterMap_append]
  cases hevent : row.event <;> simp [traceOf, hrow, hevent]

/-- A node without an event about the symbol passes every atom of it on. -/
theorem letsThrough_of_silent {row : FlowNode}
    (h : row.event.toList.filter (about (· == symbol)) = []) :
    graph.LetsThrough symbol row atom := by
  cases row with
  | assignment target assigned antecedent =>
    rintro rfl
    simp [FlowNode.event, about] at h
  | condition guarded op positive antecedent =>
    rintro rfl
    simp [FlowNode.event, about] at h
  | unreachable => trivial
  | start => trivial
  | branchLabel antecedents => trivial
  | loopLabel pre back => trivial

/-- The last node of a path has one event about the symbol, or none. -/
theorem filter_event_cases (symbol : SymbolId) (row : FlowNode) :
    row.event.toList.filter (about (· == symbol)) = [] ∨
    (∃ assigned antecedent, row = .assignment symbol assigned antecedent ∧
      row.event.toList.filter (about (· == symbol)) = [.assign symbol assigned]) ∨
    ∃ op positive antecedent, row = .condition symbol op positive antecedent ∧
      row.event.toList.filter (about (· == symbol)) = [.guard symbol op positive] := by
  cases row with
  | assignment target assigned antecedent =>
    by_cases h : target = symbol
    · subst h
      exact .inr (.inl ⟨assigned, antecedent, rfl, by simp [FlowNode.event, about]⟩)
    · exact .inl (by simp [FlowNode.event, about, h])
  | condition guarded op positive antecedent =>
    by_cases h : guarded = symbol
    · subst h
      exact .inr (.inr ⟨op, positive, antecedent, rfl, by simp [FlowNode.event, about]⟩)
    · exact .inl (by simp [FlowNode.event, about, h])
  | unreachable | start | branchLabel antecedents | loopLabel pre back => exact .inl rfl

/-- What the last assignment on a path installs reaches the end of the path, when it passes the
guards after it. -/
theorem reaches_of_trace {origin last : FlowNodeId} {entered : List FlowNodeId}
    (hpath : Path graph.nodes origin last entered) (hkeeps : graph.KeepsUnknown symbol entered)
    {before after : List Event} {assigned : Option FlowType}
    (heq : (traceOf graph.nodes entered).filter (about (· == symbol)) =
      before ++ .assign symbol assigned :: after)
    (hlast : ∀ other, .assign symbol other ∉ after)
    (hguards : ∀ op positive keeps, .guard symbol op positive ∈ after →
      graph.guard op positive = some keeps → FlowType.Passes keeps atom)
    (hatom : atom ∈ (assigned.getD (graph.declared symbol)).atoms) :
    graph.Reaches (graph.PassesOn symbol) symbol ∅ last atom := by
  induction hpath generalizing after with
  | nil => simp [traceOf] at heq
  | @snoc last next entered row hpath hrow hedge ih =>
    rw [traceOf_snoc _ _ hrow, filter_append] at heq
    rcases filter_event_cases symbol row with hnone | ⟨assigned', _, rfl, hsome⟩ |
      ⟨op, positive, _, rfl, hsome⟩
    · rw [hnone, append_nil] at heq
      refine .step (by simp) hrow hedge ⟨letsThrough_of_silent hnone, hkeeps.last hrow⟩
        (ih (hkeeps.dropLast hrow ?_) heq hlast hguards)
      rintro assigned' antecedent rfl
      simp [FlowNode.event, about] at hnone
    · rw [hsome] at heq
      -- the last assignment is the one of this node
      rcases eq_nil_or_concat after with rfl | ⟨init, event, rfl⟩
      · obtain ⟨-, hevent⟩ := append_inj' heq rfl
        obtain ⟨rfl⟩ : assigned' = assigned := by simpa using hevent
        exact .assigned (by simp) hrow hatom
      · rw [concat_eq_append, ← cons_append, ← append_assoc] at heq
        obtain ⟨-, hevent⟩ := append_inj' heq rfl
        exact absurd (by simp [concat_eq_append, singleton_inj.mp hevent]) (hlast assigned')
    · rw [hsome] at heq
      rcases eq_nil_or_concat after with rfl | ⟨init, event, rfl⟩
      · obtain ⟨-, hevent⟩ := append_inj' heq rfl
        simp at hevent
      · rw [concat_eq_append] at heq hlast hguards
        rw [← cons_append, ← append_assoc] at heq
        obtain ⟨hinit, hevent⟩ := append_inj' heq rfl
        obtain rfl := singleton_inj.mp hevent
        refine .step (by simp) hrow hedge ⟨?_, hkeeps.last hrow⟩
          (ih (hkeeps.dropLast hrow (fun _ _ h => by cases h)) hinit ?_ ?_)
        · exact fun _ keeps hkeeps => hguards op positive keeps (by simp) hkeeps
        · exact fun other hmem => hlast other (mem_append_left _ hmem)
        · exact fun op positive keeps hmem => hguards op positive keeps (mem_append_left _ hmem)

/-- What is left in a symbol whose last assignment is in sight was assigned there, and the
execution keeps to the graph since then. -/
theorem SeenLast.assigned {events : List Event} (hseen : SeenLast symbol events)
    (h : graph.LeavesAtom symbol events atom) :
    ∃ before assigned after, events = before ++ .assign symbol assigned :: after ∧
      (∀ event ∈ .assign symbol assigned :: after, event.diverges (· == symbol) = false) ∧
      (∀ other, .assign symbol other ∉ after) ∧
      (∀ op positive keeps, .guard symbol op positive ∈ after →
        graph.guard op positive = some keeps → FlowType.Passes keeps atom) ∧
      atom ∈ (assigned.getD (graph.declared symbol)).atoms := by
  obtain ⟨before, event, after, ty, rfl, hinstalls, hlast, hguards, hatom⟩ := h
  have hnone : ∀ other, .assign symbol other ∉ after := by
    intro other hmem
    simpa [installs] using hlast _ hmem
  have hkept : ∀ later ∈ event :: after, later.diverges (· == symbol) = false := by
    intro later hlater
    by_contra hdiverges
    obtain ⟨front, back, hsplit⟩ := append_of_mem hlater
    obtain ⟨assigned, hassigned⟩ := hseen (before ++ front) later back
      (by rw [hsplit, append_assoc]) (Bool.of_not_eq_false hdiverges)
    have hback : back ⊆ after := by
      cases front with
      | nil =>
        cases hsplit
        exact Subset.refl _
      | cons first front =>
        cases hsplit
        simp
    exact hnone assigned (hback hassigned)
  cases event with
  | assign target assigned =>
    obtain ⟨rfl, rfl⟩ : target = symbol ∧ assigned.getD (graph.declared symbol) = ty := by
      simpa [installs] using hinstalls
    exact ⟨before, assigned, after, rfl, hkept, hnone, hguards, hatom⟩
  | hidden target =>
    obtain ⟨rfl, -⟩ : target = symbol ∧ graph.declared symbol = ty := by
      simpa [installs] using hinstalls
    simpa [diverges] using hkept _ mem_cons_self
  | guard | reference | skipped => cases hinstalls

/-! ## §2 Assignments in sight -/

/-- **An assignment in sight is not lost.**  Whatever the flow was before the statement and
whatever was asked before, the type right after it includes the assigned type. -/
theorem writes_covered (env : FlowEnv) (scope : Scope) (stmt : Stmt)
    (htracked : TrackedStmt (· == symbol) scope stmt) (b : Builder) (hb : b.Ranked)
    (hne : b.cursor ≠ .unreachable) (hordered : graph.Ordered)
    (hgraph : NodesExtend (buildStmt env scope stmt b).nodes graph.nodes) {events : List Event}
    (hruns : Runs env scope (.stmt [] stmt) events .normal) (hseen : SeenLast symbol events)
    (hkeeps : graph.KeepsOn symbol b.cursor (buildStmt env scope stmt b).cursor events)
    (earlier : List (FlowNodeId × SymbolId)) :
    graph.CoversRun symbol events (buildStmt env scope stmt b).cursor earlier := by
  obtain ⟨fuelEarlier, answers, before, hearlier, hbefore⟩ := betweenCalls_empty.calls hordered earlier
  obtain ⟨ty, after, ⟨fuel, hcall⟩, -, hcovered⟩ :=
    hbefore.call hordered (buildStmt env scope stmt b).cursor symbol
  refine ⟨fuelEarlier + fuel, answers, before, ty, after, calls_mono fuel hearlier, ?_, ?_⟩
  · have hcall' := resolve_mono fuelEarlier hcall
    rwa [Nat.add_comm] at hcall'
  · intro atom hleaves
    have hsim := hruns.simulated scope (.refl _ scope) htracked b hb hne
      (fun _ => freshLabels_nil b) graph.nodes _ ⟨hgraph, fun _ h => h⟩
    obtain ⟨-, entered, hpath, htrace⟩ := hsim.leaves
    obtain ⟨front, assigned, later, rfl, hkept, hlast, hguards, hatom⟩ := hseen.assigned hleaves
    -- the path ends as the execution does since its last assignment
    obtain ⟨skipped, hsuffix⟩ := htrace.since front _ rfl hkept
    have hends : (traceOf graph.nodes entered).filter (about (· == symbol)) =
        skipped ++ .assign symbol assigned :: later.filter (about (· == symbol)) := by
      rw [← hsuffix]
      simp [about]
    refine hcovered.covers atom
      (reaches_of_trace hpath (hkeeps entered hpath htrace) hends ?_ ?_ hatom)
    · exact fun other hmem => hlast other (mem_filter.mp hmem).1
    · exact fun op positive keeps hmem => hguards op positive keeps (mem_filter.mp hmem).1

end FlowGraph

/-! ## §3 Skipped forms -/

/-- The forms without an arm in the builder: the flow after them is the flow before them. -/
def Stmt.isSkipped : Stmt → Bool
  | .unbuilt _ _ _ _ _ => true
  | .expression (.update _) => true
  | .expression (.unbuilt _) => true
  | _ => false

theorem buildStmt_of_isSkipped (env : FlowEnv) (scope : Scope) {stmt : Stmt}
    (h : stmt.isSkipped = true) (b : Builder) : buildStmt env scope stmt b = b := by
  unfold Stmt.isSkipped at h
  split at h
  · rfl
  · rfl
  · rfl
  · cases h

variable {symbol : SymbolId}

/-- A skipped form that can assign a symbol has an execution that does. -/
theorem runs_of_isSkipped (env : FlowEnv) (scope : Scope) {stmt : Stmt} (h : stmt.isSkipped = true)
    (hmem : symbol ∈ assignedStmt scope stmt) :
    Runs env scope (.stmt [] stmt) [.hidden symbol] .normal := by
  have hwrites : Writes (assignedStmt scope stmt) [.hidden symbol] := by
    intro event hevent
    exact ⟨symbol, hmem, mem_singleton.mp hevent⟩
  unfold Stmt.isSkipped at h
  split at h
  · exact .unbuilt [] hwrites (.inl rfl)
  · exact .expression [] (.update hwrites)
  · exact .expression [] (.unbuilt hwrites)
  · cases h

/-- All that a skipped form does is hidden. -/
theorem hidden_of_isSkipped {env : FlowEnv} {scope : Scope} {stmt : Stmt}
    (h : stmt.isSkipped = true) {events : List Event} {outcome : Outcome}
    (hruns : Runs env scope (.stmt [] stmt) events outcome) :
    Writes (assignedStmt scope stmt) events := by
  unfold Stmt.isSkipped at h
  split at h
  · cases hruns with
    | unbuilt _ hwrites => exact hwrites
  · cases hruns with
    | expression _ heval =>
      cases heval with
      | update hwrites => exact hwrites
  · cases hruns with
    | expression _ heval =>
      cases heval with
      | unbuilt hwrites => exact hwrites
  · cases h

/-- Hidden assignments leave the declared type in the symbol. -/
theorem FlowGraph.leavesAtom_of_writes {graph : FlowGraph} {symbols : List SymbolId}
    {events : List Event} (h : Writes symbols events) (hmem : .hidden symbol ∈ events) {atom : Atom}
    (hatom : atom ∈ (graph.declared symbol).atoms) :
    graph.LeavesAtom symbol events atom := by
  induction events with
  | nil => cases hmem
  | cons event rest ih =>
    have hrest : Writes symbols rest := fun later hlater => h later (mem_cons_of_mem _ hlater)
    by_cases hlater : .hidden symbol ∈ rest
    · obtain ⟨before, last, after, ty, rfl, hleaves⟩ := ih hrest hlater
      exact ⟨event :: before, last, after, ty, rfl, hleaves⟩
    · obtain rfl : .hidden symbol = event := (mem_cons.mp hmem).resolve_right hlater
      refine ⟨[], _, rest, graph.declared symbol, rfl, by simp [installs], ?_, ?_, hatom⟩
      · intro later hlater'
        obtain ⟨other, -, rfl⟩ := hrest later hlater'
        have hne : other ≠ symbol := fun heq => hlater (heq ▸ hlater')
        simp [installs, hne]
      · intro op positive keeps hguard
        obtain ⟨other, -, heq⟩ := hrest _ hguard
        cases heq

/-- The flow after `x = null;`. -/
def narrowedBuilder (symbol : SymbolId) : Builder :=
  Builder.initial.assign symbol (some (.union {.other 5})) ⟨0, symbol.name⟩

/-- The graph so far, with `null | number` as the declared type. -/
def narrowedGraph (symbol : SymbolId) : FlowGraph :=
  ⟨(narrowedBuilder symbol).nodes, fun _ => .union {.other 5, .other 8}, fun _ _ => none⟩

theorem narrowedBuilder_ranked (symbol : SymbolId) : (narrowedBuilder symbol).Ranked :=
  (Builder.grown_assign Builder.ranked_initial (by decide)).ranked

theorem narrowedGraph_keepsOn (symbol : SymbolId) (origin last : FlowNodeId) (events : List Event) :
    (narrowedGraph symbol).KeepsOn symbol origin last events := by
  intro entered _ _ before node after row _ _ _
  cases row with
  | condition guarded op positive antecedent =>
    intro _ _ keeps hkeeps
    cases hkeeps
  | _ => trivial

/-- The first call at an assignment to the symbol answers the assigned type. -/
theorem FlowGraph.resolve_assignment {graph : FlowGraph} {node antecedent : FlowNodeId}
    {assigned : Option FlowType} (hsentinel : ¬(node = .start ∨ node = .unreachable))
    (hrow : graph.nodes[node]? = some (.assignment symbol assigned antecedent)) :
    graph.resolveNarrowedType 3 node symbol .empty =
      some (assigned.getD (graph.declared symbol),
        flowSet .empty node symbol (assigned.getD (graph.declared symbol))) := by
  have hlookup : graph.flowLookupCached .empty node symbol = none := by
    rw [flowLookupCached, if_neg hsentinel]
    rfl
  have hvisit : graph.visit symbol node [] (fun _ => none) .empty =
      settle symbol node [] (fun _ => none) .empty (assigned.getD (graph.declared symbol)) := by
    simp [visit, hrow]
  simp [resolveNarrowedType, walk, walkStep, hlookup, hvisit, settle]

/-- The type resolved right after `x = null;`, with whatever fuel. -/
theorem resolve_narrowedGraph {fuel : Nat} {ty : FlowType} {after : FlowState}
    (h : (narrowedGraph symbol).resolveNarrowedType fuel (narrowedBuilder symbol).cursor symbol
      .empty = some (ty, after)) : ty = .union {.other 5} := by
  have hcall := resolve_assignment (by decide)
    (show (narrowedGraph symbol).nodes[(2 : Nat)]? =
      some (.assignment symbol (some (.union {.other 5})) .start) from rfl)
  have hfirst := resolve_mono 3 h
  have hsecond := resolve_mono fuel hcall
  rw [Nat.add_comm] at hsecond
  have heq := hfirst.symm.trans hsecond
  rw [Option.some.injEq, Prod.mk.injEq] at heq
  exact heq.1

/-- A skipped form loses its assignments: the type after it is still `null`. -/
theorem not_coversRun_of_isSkipped (env : FlowEnv) (scope : Scope) {stmt : Stmt}
    (h : stmt.isSkipped = true) {events : List Event}
    (hruns : Runs env scope (.stmt [] stmt) events .normal) (hmem : .hidden symbol ∈ events) :
    ¬(narrowedGraph symbol).CoversRun symbol events
      (buildStmt env scope stmt (narrowedBuilder symbol)).cursor [] := by
  rintro ⟨fuel, answers, before, ty, after, hcalls, hcall, hcovers⟩
  rw [buildStmt_of_isSkipped env scope h] at hcall
  obtain ⟨-, rfl⟩ : [] = answers ∧ FlowState.empty = before := by
    simpa [resolveCalls] using hcalls
  obtain rfl := resolve_narrowedGraph hcall
  have hdeclared : Atom.other 8 ∈ ((narrowedGraph symbol).declared symbol).atoms :=
    show Atom.other 8 ∈ (FlowType.union {.other 5, .other 8}).atoms by decide
  rcases hcovers _ (leavesAtom_of_writes (hidden_of_isSkipped h hruns) hmem hdeclared) with
    hatom | hty | hty
  · exact absurd hatom (by decide)
  · cases hty
  · cases hty

/-- `{ if (typeof x === "number") {} y ||= (x = 5); }`, bound. -/
def logicalStmt : Stmt :=
  (bindStmt exampleScope (.block none
    [.ite (.binary .strictEquality (.unary .typeof (.identifier 10 "x"))
        (.literal (.string "number"))) .empty .empty,
      .expression (.assignment .logical (.identifier 20 "y") (.paren
        (.assignment .assign (.identifier 30 "x") (.literal (.number ⟨0x4014000000000000⟩)))))]) 1).1

/-- Its graph, with `x: unknown`. -/
def logicalGraph : FlowGraph :=
  ⟨(buildStmt exampleEnv exampleScope logicalStmt Builder.initial).nodes, fun _ => .unknown,
    fun _ _ => some (fun atom => atom == .other 8)⟩

/-- The execution that goes into the branch and assigns. -/
def logicalEvents : List Event :=
  [.reference 10, .guard FlowGraph.exampleSymbol (.typeof .number) true,
    .assign FlowGraph.exampleSymbol (some (.union {.other 8}))]

theorem runs_logicalStmt :
    Runs exampleEnv exampleScope (.stmt [] logicalStmt) logicalEvents .normal := by
  have htest : Evaluates exampleEnv (⟨1, []⟩ :: exampleScope)
      (.test (.binary .strictEquality (.unary .typeof (.identifier 10 "x"))
        (.literal (.string "number"))) true)
      [.reference 10, .guard FlowGraph.exampleSymbol (.typeof .number) true] :=
    .leaf true rfl (.binary (.unary (.identifier 10 "x")) (.literal _))
  have hright : Evaluates exampleEnv (⟨1, []⟩ :: exampleScope) (.value (.paren
      (.assignment .assign (.identifier 30 "x") (.literal (.number ⟨0x4014000000000000⟩)))))
      [.assign FlowGraph.exampleSymbol (some (.union {.other 8}))] :=
    .paren (.assign 30 "x" (by decide) (.literal _))
  have hassign := Evaluates.logicalAssign hright (.targetIdentifier 20 "y")
  exact .block [] (.cons (.ite [] htest (.empty [])) (.cons (.expression [] hassign) .nil))

/-- The guard drops `unknown`, but it stands before the assignment. -/
theorem logicalGraph_keepsOn : logicalGraph.KeepsOn FlowGraph.exampleSymbol .start
    (buildStmt exampleEnv exampleScope logicalStmt Builder.initial).cursor logicalEvents := by
  intro entered hpath _
  cases hpath with
  | @snoc last _ entered row _ hrow _ =>
    have hassign : row = .assignment FlowGraph.exampleSymbol (some (.union {.other 8})) 4 :=
      Option.some_injective _ (hrow.symm.trans (by decide +kernel))
    subst hassign
    exact keepsUnknown_snoc hrow trivial fun h => absurd rfl (h _ _)

/-- `for (;;) { x = 5; break; }` -/
def forStmt : Stmt :=
  .unbuilt .forLoop none [] []
    [.block none [.expression
      (.assignment .assign (.identifier 20 "x") (.literal (.number ⟨0x4014000000000000⟩))),
      .break none]]

end Typokat.Check
