import Typokat.Check.FlowTypes

/-!
# Flow Nodes and the Backward Walk (`check/flow.rs`, `checker/flowgraph/nodes.rs`)

A flow graph is an arena of nodes.  A reference's narrowed type is found by walking
backward from its node: assignments to the symbol stop the walk, conditions on it filter,
joins take the union, and a loop label is resolved by a single unrolling with a
provisional seed.

The walk keeps an explicit stack, a scratch table for the one call, a durable memo and the
table of provisional seeds.  It is modelled with a fuel argument; `none` means that the
fuel ran out.

## Main Results

- `resolve_mono` : more fuel does not change an answer
- `LoopsTo.unroll` : the single unrolling of a loop label
-/

namespace Typokat.Check

open Types

/-! ## §1 Nodes -/

/-- A symbol.  The binder numbers symbols; here a symbol is named by what its number stands
for, the scope that declares it and its name. -/
structure SymbolId where
  scope : Nat
  name : String
  deriving DecidableEq, Repr

/-- Index into the flow-node arena. -/
abbrev FlowNodeId := Nat

namespace FlowNodeId

/-- Unreachable code, or a join whose antecedents are all unreachable.  Reserved slot 0. -/
def unreachable : FlowNodeId := 0

/-- Flow start: a reference resolves to its declared type here.  Reserved slot 1. -/
def start : FlowNodeId := 1

end FlowNodeId

/-- The `typeof` tags that are recognized. -/
inductive TypeofTag
  | string | number | boolean
  deriving DecidableEq, Repr

namespace TypeofTag

/-- `TypeofTag::from_tag_literal`. -/
def fromTagLiteral (tag : String) : Option TypeofTag :=
  if tag = "string" then some .string
  else if tag = "number" then some .number
  else if tag = "boolean" then some .boolean
  else none

end TypeofTag

/-- A guard shape independent of branch polarity. -/
inductive NarrowOp
  | typeof (tag : TypeofTag)
  | truthy
  | eqNullish (isUndefined : Bool)
  | discriminant (property : String) (literal : TypeId)
  | «in» (property : String)
  deriving DecidableEq, Repr

/-- A node of the flow graph. -/
inductive FlowNode
  | unreachable
  | start
  /-- `assigned = none` resets to the declared type. -/
  | assignment (symbol : SymbolId) (assigned : Option FlowType) (antecedent : FlowNodeId)
  | condition (symbol : SymbolId) (op : NarrowOp) (positive : Bool) (antecedent : FlowNodeId)
  | branchLabel (antecedents : List FlowNodeId)
  | loopLabel (pre back : List FlowNodeId)
  deriving DecidableEq

namespace FlowNode

/-- The nodes from which flow enters a node. -/
def antecedents : FlowNode → List FlowNodeId
  | unreachable => []
  | start => []
  | assignment _ _ antecedent => [antecedent]
  | condition _ _ _ antecedent => [antecedent]
  | branchLabel antecedents => antecedents
  | loopLabel pre back => pre ++ back

end FlowNode

/-- A finite path along the edges of the arena, with the nodes it enters in order.  Loop
labels may be entered any number of times. -/
inductive Path (nodes : List FlowNode) (origin : FlowNodeId) : FlowNodeId → List FlowNodeId → Prop
  | nil : Path nodes origin origin []
  | snoc {last next : FlowNodeId} {entered : List FlowNodeId} {row : FlowNode} :
      Path nodes origin last entered → nodes[next]? = some row → last ∈ row.antecedents →
      Path nodes origin next (entered ++ [next])

/-! ## §2 The resolver -/

/-- What the walk reads and never changes: the arena, the declared types and the guards.
A guard without a filter is one whose query is exhausted. -/
structure FlowGraph where
  nodes : List FlowNode
  declared : SymbolId → FlowType
  guard : NarrowOp → Bool → Option Filter

/-- A table keyed by flow node and symbol. -/
abbrev FlowTable := FlowNodeId → SymbolId → Option FlowType

/-- The tables that live across calls. -/
structure FlowState where
  memo : FlowTable
  provisional : FlowTable
  loopDepth : Nat

/-- The table with one more entry. -/
def FlowTable.insert (table : FlowTable) (node : FlowNodeId) (symbol : SymbolId) (ty : FlowType) :
    FlowTable :=
  fun n s => if n = node ∧ s = symbol then some ty else table n s

/-- The table without one entry. -/
def FlowTable.remove (table : FlowTable) (node : FlowNodeId) (symbol : SymbolId) : FlowTable :=
  fun n s => if n = node ∧ s = symbol then none else table n s

@[simp] theorem FlowTable.insert_self (table : FlowTable) (node : FlowNodeId) (symbol : SymbolId)
    (ty : FlowType) : table.insert node symbol ty node symbol = some ty := by
  simp [FlowTable.insert]

theorem FlowTable.insert_ne (table : FlowTable) {node n : FlowNodeId} {symbol s : SymbolId}
    (ty : FlowType) (h : ¬(n = node ∧ s = symbol)) :
    table.insert node symbol ty n s = table n s := by
  simp [FlowTable.insert, h]

namespace FlowState

/-- Before the first call. -/
def empty : FlowState := ⟨fun _ _ => none, fun _ _ => none, 0⟩

end FlowState

/-- The types computed so far in one call. -/
abbrev Scratch := FlowNodeId → Option FlowType

namespace FlowGraph

variable (graph : FlowGraph)

/-- `flow_lookup_cached`. -/
def flowLookupCached (state : FlowState) (node : FlowNodeId) (symbol : SymbolId) :
    Option FlowType :=
  if node = .start ∨ node = .unreachable then some (graph.declared symbol)
  else
    match state.provisional node symbol with
    | some ty => some ty
    | none => state.memo node symbol

/-- `scratch_or_cached`. -/
def scratchOrCached (state : FlowState) (scratch : Scratch) (node : FlowNodeId) (symbol : SymbolId) :
    Option FlowType :=
  match scratch node with
  | some ty => some ty
  | none => graph.flowLookupCached state node symbol

/-- `flow_set`: the scratch always, the memo only outside every loop fixpoint. -/
def flowSet (state : FlowState) (node : FlowNodeId) (symbol : SymbolId) (ty : FlowType) :
    FlowState :=
  if state.loopDepth = 0 then { state with memo := state.memo.insert node symbol ty } else state

/-- The narrowing of one condition node; an exhausted guard keeps the type. -/
def narrowBy (op : NarrowOp) (positive : Bool) (base : FlowType) : FlowType :=
  match graph.guard op positive with
  | some keeps => base.narrow keeps
  | none => base

/-- A label goes in flight: durable writes stop and re-entry finds a provisional type. -/
def enterLoop (state : FlowState) (label : FlowNodeId) (symbol : SymbolId) : FlowState :=
  { state with
    loopDepth := state.loopDepth + 1
    provisional := state.provisional.insert label symbol (graph.declared symbol) }

/-- The seed replaces the placeholder. -/
def seedLoop (state : FlowState) (label : FlowNodeId) (symbol : SymbolId) (seed : FlowType) :
    FlowState :=
  { state with provisional := state.provisional.insert label symbol seed }

/-- The label is resolved: its provisional entry goes, and outside every other fixpoint the
result is memoized. -/
def leaveLoop (state : FlowState) (label : FlowNodeId) (symbol : SymbolId) (result : FlowType) :
    FlowState :=
  let left : FlowState :=
    { state with
      loopDepth := state.loopDepth - 1
      provisional := state.provisional.remove label symbol }
  if left.loopDepth = 0 then { left with memo := left.memo.insert label symbol result } else left

/-- What one pass of the loop in `resolve_narrowed_type` does. -/
inductive WalkStep
  /-- the stack is empty -/
  | done
  /-- the loop goes on -/
  | next (stack : List FlowNodeId) (scratch : Scratch) (state : FlowState)
  /-- the top of the stack is a loop label -/
  | loop (label : FlowNodeId) (rest : List FlowNodeId)

/-- The top of the stack is popped with its type, which is recorded. -/
def settle (symbol : SymbolId) (node : FlowNodeId) (rest : List FlowNodeId) (scratch : Scratch)
    (state : FlowState) (ty : FlowType) : WalkStep :=
  .next rest (Function.update scratch node (some ty)) (flowSet state node symbol ty)

/-- One pass for a node whose type is not known yet (`flow_step` and its arms). -/
def visit (symbol : SymbolId) (node : FlowNodeId) (rest : List FlowNodeId) (scratch : Scratch)
    (state : FlowState) : WalkStep :=
  match graph.nodes[node]? with
  | some (.assignment target assigned antecedent) =>
    if target = symbol then
      settle symbol node rest scratch state (assigned.getD (graph.declared symbol))
    else
      match graph.scratchOrCached state scratch antecedent symbol with
      | some base => settle symbol node rest scratch state base
      | none => .next (antecedent :: node :: rest) scratch state
  | some (.condition guarded op positive antecedent) =>
    match graph.scratchOrCached state scratch antecedent symbol with
    | some base =>
      settle symbol node rest scratch state
        (if guarded = symbol then graph.narrowBy op positive base else base)
    | none => .next (antecedent :: node :: rest) scratch state
  | some (.branchLabel antecedents) =>
    match antecedents.find? (fun a => (graph.scratchOrCached state scratch a symbol).isNone) with
    | some missing => .next (missing :: node :: rest) scratch state
    | none =>
      settle symbol node rest scratch state (FlowType.unionAll (antecedents.map
        (fun a => (graph.scratchOrCached state scratch a symbol).getD (graph.declared symbol))))
  | some (.loopLabel _ _) => .loop node rest
  -- the sentinels never get here; a node outside the arena is an error
  | _ => settle symbol node rest scratch state .error

/-- One pass of the loop in `resolve_narrowed_type`. -/
def walkStep (symbol : SymbolId) (stack : List FlowNodeId) (scratch : Scratch) (state : FlowState) :
    WalkStep :=
  match stack with
  | [] => .done
  | node :: rest =>
    if (scratch node).isSome then .next rest scratch state
    else
      match graph.flowLookupCached state node symbol with
      | some ty => .next rest (Function.update scratch node (some ty)) state
      | none => graph.visit symbol node rest scratch state

mutual

/-- `resolve_narrowed_type`. -/
def resolveNarrowedType (fuel : Nat) (flow : FlowNodeId) (symbol : SymbolId) (state : FlowState) :
    Option (FlowType × FlowState) :=
  match fuel with
  | 0 => none
  | fuel + 1 =>
    match graph.flowLookupCached state flow symbol with
    | some ty => some (ty, state)
    | none => walk fuel flow symbol [flow] (fun _ => none) state

/-- The loop of `resolve_narrowed_type` over its explicit stack. -/
def walk (fuel : Nat) (flow : FlowNodeId) (symbol : SymbolId) (stack : List FlowNodeId)
    (scratch : Scratch) (state : FlowState) : Option (FlowType × FlowState) :=
  match fuel with
  | 0 => none
  | fuel + 1 =>
    match graph.walkStep symbol stack scratch state with
    | .done => some ((scratch flow).getD (graph.declared symbol), state)
    | .next stack scratch state => walk fuel flow symbol stack scratch state
    | .loop label rest =>
      match resolveLoopLabel fuel label symbol state with
      | none => none
      | some (ty, state) =>
        walk fuel flow symbol rest (Function.update scratch label (some ty)) state

/-- `resolve_loop_label`: the single-unroll fixpoint. -/
def resolveLoopLabel (fuel : Nat) (label : FlowNodeId) (symbol : SymbolId) (state : FlowState) :
    Option (FlowType × FlowState) :=
  match fuel with
  | 0 => none
  | fuel + 1 =>
    match state.provisional label symbol with
    | some ty => some (ty, state)
    | none =>
      match (if state.loopDepth = 0 then state.memo label symbol else none) with
      | some ty => some (ty, state)
      | none =>
        match graph.nodes[label]? with
        | some (.loopLabel pre back) =>
          match resolveAntecedents fuel pre symbol (graph.enterLoop state label symbol) with
          | none => none
          | some (preParts, state) =>
            let seed := FlowType.unionAll preParts
            match resolveAntecedents fuel back symbol (seedLoop state label symbol seed) with
            | none => none
            | some (parts, state) =>
              let result := FlowType.unionAll (seed :: parts)
              some (result, leaveLoop state label symbol result)
        | _ => some (graph.declared symbol, state)

/-- The `for` loops of `resolve_loop_label` over the antecedents of the label. -/
def resolveAntecedents (fuel : Nat) (antecedents : List FlowNodeId) (symbol : SymbolId)
    (state : FlowState) : Option (List FlowType × FlowState) :=
  match fuel with
  | 0 => none
  | fuel + 1 =>
    match antecedents with
    | [] => some ([], state)
    | antecedent :: rest =>
      match resolveNarrowedType fuel antecedent symbol state with
      | none => none
      | some (ty, state) =>
        match resolveAntecedents fuel rest symbol state with
        | none => none
        | some (parts, state) => some (ty :: parts, state)

end

/-- A sequence of calls, each on the tables the one before it left. -/
def resolveCalls (fuel : Nat) :
    List (FlowNodeId × SymbolId) → FlowState → Option (List FlowType × FlowState)
  | [], state => some ([], state)
  | (node, symbol) :: rest, state =>
    match graph.resolveNarrowedType fuel node symbol state with
    | none => none
    | some (ty, state) =>
      match resolveCalls fuel rest state with
      | none => none
      | some (answers, state) => some (ty :: answers, state)

/-! ## §3 Fuel -/

variable {graph}

/-- One more unit of fuel does not change an answer. -/
private theorem mono_succ (fuel : Nat) :
    (∀ flow symbol state r, graph.resolveNarrowedType fuel flow symbol state = some r →
      graph.resolveNarrowedType (fuel + 1) flow symbol state = some r) ∧
    (∀ flow symbol stack scratch state r,
      graph.walk fuel flow symbol stack scratch state = some r →
      graph.walk (fuel + 1) flow symbol stack scratch state = some r) ∧
    (∀ label symbol state r, graph.resolveLoopLabel fuel label symbol state = some r →
      graph.resolveLoopLabel (fuel + 1) label symbol state = some r) ∧
    (∀ antecedents symbol state r,
      graph.resolveAntecedents fuel antecedents symbol state = some r →
      graph.resolveAntecedents (fuel + 1) antecedents symbol state = some r) := by
  induction fuel with
  | zero =>
    refine ⟨?_, ?_, ?_, ?_⟩
    · intro _ _ _ _ h
      simp [resolveNarrowedType] at h
    · intro _ _ _ _ _ _ h
      simp [walk] at h
    · intro _ _ _ _ h
      simp [resolveLoopLabel] at h
    · intro _ _ _ _ h
      simp [resolveAntecedents] at h
  | succ fuel ih =>
    obtain ⟨ihresolve, ihwalk, ihloop, ihants⟩ := ih
    refine ⟨?_, ?_, ?_, ?_⟩
    · intro flow symbol state r h
      rw [resolveNarrowedType] at h ⊢
      cases hlookup : graph.flowLookupCached state flow symbol with
      | some ty => simpa [hlookup] using h
      | none =>
        simp only [hlookup] at h ⊢
        exact ihwalk _ _ _ _ _ _ h
    · intro flow symbol stack scratch state r h
      rw [walk] at h ⊢
      cases hstep : graph.walkStep symbol stack scratch state with
      | done => simpa [hstep] using h
      | next stack' scratch' state' =>
        simp only [hstep] at h ⊢
        exact ihwalk _ _ _ _ _ _ h
      | loop label rest =>
        simp only [hstep] at h ⊢
        cases hloop : graph.resolveLoopLabel fuel label symbol state with
        | none => simp [hloop] at h
        | some out =>
          simp only [hloop] at h
          simp only [ihloop _ _ _ _ hloop]
          exact ihwalk _ _ _ _ _ _ h
    · -- both lists of antecedents are answered with the smaller fuel
      intro label symbol state r h
      rw [resolveLoopLabel] at h ⊢
      cases hprovisional : state.provisional label symbol with
      | some ty => simpa [hprovisional] using h
      | none =>
        simp only [hprovisional] at h ⊢
        cases hmemo : (if state.loopDepth = 0 then state.memo label symbol else none) with
        | some ty => simpa [hmemo] using h
        | none =>
          simp only [hmemo] at h ⊢
          split at h
          · rename_i pre back hnode
            cases hpre : graph.resolveAntecedents fuel pre symbol
                (graph.enterLoop state label symbol) with
            | none => simp [hpre] at h
            | some outPre =>
              simp only [hpre] at h
              simp only [ihants _ _ _ _ hpre]
              cases hback : graph.resolveAntecedents fuel back symbol
                  (seedLoop outPre.2 label symbol (FlowType.unionAll outPre.1)) with
              | none => simp [hback] at h
              | some outBack =>
                simp only [hback] at h
                simp only [ihants _ _ _ _ hback]
                exact h
          · exact h
    · intro antecedents symbol state r h
      cases antecedents with
      | nil => simpa [resolveAntecedents] using h
      | cons antecedent rest =>
        rw [resolveAntecedents] at h ⊢
        cases hhead : graph.resolveNarrowedType fuel antecedent symbol state with
        | none => simp [hhead] at h
        | some outHead =>
          simp only [hhead] at h
          simp only [ihresolve _ _ _ _ hhead]
          cases hrest : graph.resolveAntecedents fuel rest symbol outHead.2 with
          | none => simp [hrest] at h
          | some outRest =>
            simp only [hrest] at h
            simp only [ihants _ _ _ _ hrest]
            exact h

section Mono

variable {fuel : Nat} (extra : Nat) {symbol : SymbolId} {state : FlowState}
variable {r : FlowType × FlowState}

/-- **More fuel does not change an answer.** -/
theorem resolve_mono {flow : FlowNodeId}
    (h : graph.resolveNarrowedType fuel flow symbol state = some r) :
    graph.resolveNarrowedType (fuel + extra) flow symbol state = some r := by
  induction extra with
  | zero => exact h
  | succ extra ih => exact (mono_succ (fuel + extra)).1 _ _ _ _ ih

theorem walk_mono {flow : FlowNodeId} {stack : List FlowNodeId} {scratch : Scratch}
    (h : graph.walk fuel flow symbol stack scratch state = some r) :
    graph.walk (fuel + extra) flow symbol stack scratch state = some r := by
  induction extra with
  | zero => exact h
  | succ extra ih => exact (mono_succ (fuel + extra)).2.1 _ _ _ _ _ _ ih

theorem loop_mono {label : FlowNodeId} (h : graph.resolveLoopLabel fuel label symbol state = some r) :
    graph.resolveLoopLabel (fuel + extra) label symbol state = some r := by
  induction extra with
  | zero => exact h
  | succ extra ih => exact (mono_succ (fuel + extra)).2.2.1 _ _ _ _ ih

theorem antecedents_mono {antecedents : List FlowNodeId} {r : List FlowType × FlowState}
    (h : graph.resolveAntecedents fuel antecedents symbol state = some r) :
    graph.resolveAntecedents (fuel + extra) antecedents symbol state = some r := by
  induction extra with
  | zero => exact h
  | succ extra ih => exact (mono_succ (fuel + extra)).2.2.2 _ _ _ _ ih

theorem calls_mono {calls : List (FlowNodeId × SymbolId)} {r : List FlowType × FlowState}
    (h : graph.resolveCalls fuel calls state = some r) :
    graph.resolveCalls (fuel + extra) calls state = some r := by
  induction calls generalizing state r with
  | nil => exact h
  | cons call rest ih =>
    rw [resolveCalls] at h ⊢
    cases hcall : graph.resolveNarrowedType fuel call.1 call.2 state with
    | none => simp [hcall] at h
    | some out =>
      simp only [hcall] at h
      simp only [resolve_mono extra hcall]
      cases hrest : graph.resolveCalls fuel rest out.2 with
      | none => simp [hrest] at h
      | some outRest =>
        simp only [hrest] at h
        simp only [ih hrest]
        exact h

/-- One call more in front. -/
theorem calls_cons {call : FlowNodeId × SymbolId} {rest : List (FlowNodeId × SymbolId)}
    {ty : FlowType} {mid after : FlowState} {answers : List FlowType}
    (hcall : graph.resolveNarrowedType fuel call.1 call.2 state = some (ty, mid))
    (hrest : graph.resolveCalls extra rest mid = some (answers, after)) :
    graph.resolveCalls (fuel + extra) (call :: rest) state = some (ty :: answers, after) := by
  have hrest' := calls_mono fuel hrest
  rw [Nat.add_comm] at hrest'
  simp [resolveCalls, resolve_mono extra hcall, hrest']

end Mono

/-! ## §4 Answers without fuel -/

variable (graph)

/-- With enough fuel the call returns this answer. -/
def ResolvesTo (flow : FlowNodeId) (symbol : SymbolId) (state : FlowState)
    (r : FlowType × FlowState) : Prop :=
  ∃ fuel, graph.resolveNarrowedType fuel flow symbol state = some r

/-- With enough fuel the loop over the stack ends with this answer. -/
def WalksTo (flow : FlowNodeId) (symbol : SymbolId) (stack : List FlowNodeId) (scratch : Scratch)
    (state : FlowState) (r : FlowType × FlowState) : Prop :=
  ∃ fuel, graph.walk fuel flow symbol stack scratch state = some r

/-- With enough fuel the label resolves to this answer. -/
def LoopsTo (label : FlowNodeId) (symbol : SymbolId) (state : FlowState) (r : FlowType × FlowState) :
    Prop :=
  ∃ fuel, graph.resolveLoopLabel fuel label symbol state = some r

/-- With enough fuel the antecedents resolve to these answers. -/
def AllResolveTo (antecedents : List FlowNodeId) (symbol : SymbolId) (state : FlowState)
    (r : List FlowType × FlowState) : Prop :=
  ∃ fuel, graph.resolveAntecedents fuel antecedents symbol state = some r

variable {graph} {symbol : SymbolId} {state : FlowState} {flow : FlowNodeId}

theorem ResolvesTo.cached {ty : FlowType} (h : graph.flowLookupCached state flow symbol = some ty) :
    graph.ResolvesTo flow symbol state (ty, state) :=
  ⟨1, by simp [resolveNarrowedType, h]⟩

variable {r : FlowType × FlowState}

theorem ResolvesTo.walk (hlookup : graph.flowLookupCached state flow symbol = none)
    (h : graph.WalksTo flow symbol [flow] (fun _ => none) state r) :
    graph.ResolvesTo flow symbol state r := by
  obtain ⟨fuel, h⟩ := h
  exact ⟨fuel + 1, by simpa [resolveNarrowedType, hlookup] using h⟩

theorem WalksTo.done {scratch : Scratch} :
    graph.WalksTo flow symbol [] scratch state
      ((scratch flow).getD (graph.declared symbol), state) :=
  ⟨1, by simp [FlowGraph.walk, walkStep]⟩

theorem WalksTo.next {stack stack' : List FlowNodeId} {scratch scratch' : Scratch}
    {state' : FlowState}
    (hstep : graph.walkStep symbol stack scratch state = .next stack' scratch' state')
    (h : graph.WalksTo flow symbol stack' scratch' state' r) :
    graph.WalksTo flow symbol stack scratch state r := by
  obtain ⟨fuel, h⟩ := h
  exact ⟨fuel + 1, by simpa [FlowGraph.walk, hstep] using h⟩

theorem WalksTo.loop {flow label : FlowNodeId} {stack rest : List FlowNodeId} {scratch : Scratch}
    {state' : FlowState} {ty : FlowType}
    (hstep : graph.walkStep symbol stack scratch state = .loop label rest)
    (hloop : graph.LoopsTo label symbol state (ty, state'))
    (h : graph.WalksTo flow symbol rest (Function.update scratch label (some ty)) state' r) :
    graph.WalksTo flow symbol stack scratch state r := by
  obtain ⟨fuelLoop, hloop⟩ := hloop
  obtain ⟨fuel, h⟩ := h
  refine ⟨fuel + fuelLoop + 1, ?_⟩
  have hloop' := loop_mono fuel hloop
  rw [Nat.add_comm] at hloop'
  simpa [FlowGraph.walk, hstep, hloop'] using walk_mono fuelLoop h

theorem AllResolveTo.nil : graph.AllResolveTo [] symbol state ([], state) :=
  ⟨1, by simp [resolveAntecedents]⟩

theorem AllResolveTo.cons {antecedent : FlowNodeId} {rest : List FlowNodeId} {ty : FlowType}
    {parts : List FlowType} {state₁ state₂ : FlowState}
    (hhead : graph.ResolvesTo antecedent symbol state (ty, state₁))
    (hrest : graph.AllResolveTo rest symbol state₁ (parts, state₂)) :
    graph.AllResolveTo (antecedent :: rest) symbol state (ty :: parts, state₂) := by
  obtain ⟨fuelHead, hhead⟩ := hhead
  obtain ⟨fuel, hrest⟩ := hrest
  refine ⟨fuel + fuelHead + 1, ?_⟩
  have hhead' := resolve_mono fuel hhead
  rw [Nat.add_comm] at hhead'
  simp [resolveAntecedents, hhead', antecedents_mono fuelHead hrest]

/-- A node with no cached type is in neither table. -/
theorem tables_of_lookup_none {node : FlowNodeId}
    (h : graph.flowLookupCached state node symbol = none) :
    state.provisional node symbol = none ∧ state.memo node symbol = none := by
  unfold flowLookupCached at h
  split at h
  · cases h
  · split at h
    · cases h
    · exact ⟨by assumption, h⟩

theorem not_sentinel_of_lookup_none {node : FlowNodeId}
    (h : graph.flowLookupCached state node symbol = none) :
    node ≠ .start ∧ node ≠ .unreachable := by
  unfold flowLookupCached at h
  split at h
  · cases h
  · rename_i hsentinel
    exact not_or.mp hsentinel

theorem LoopsTo.unroll {label : FlowNodeId} {pre back : List FlowNodeId}
    {preParts parts : List FlowType} {state₁ state₂ : FlowState}
    (hnode : graph.nodes[label]? = some (.loopLabel pre back))
    (hlookup : graph.flowLookupCached state label symbol = none)
    (hpre : graph.AllResolveTo pre symbol (graph.enterLoop state label symbol) (preParts, state₁))
    (hback : graph.AllResolveTo back symbol
      (seedLoop state₁ label symbol (FlowType.unionAll preParts)) (parts, state₂)) :
    graph.LoopsTo label symbol state
      (FlowType.unionAll (FlowType.unionAll preParts :: parts),
        leaveLoop state₂ label symbol
          (FlowType.unionAll (FlowType.unionAll preParts :: parts))) := by
  obtain ⟨fuelPre, hpre⟩ := hpre
  obtain ⟨fuel, hback⟩ := hback
  refine ⟨fuel + fuelPre + 1, ?_⟩
  have hpre' := antecedents_mono fuel hpre
  rw [Nat.add_comm] at hpre'
  have hmiss := tables_of_lookup_none hlookup
  simp [resolveLoopLabel, hmiss.1, hmiss.2, hnode, hpre', antecedents_mono fuelPre hback]

end FlowGraph

end Typokat.Check
