import Typokat.Check.FlowSyntax
import Typokat.Types.Interner

/-!
# The Flow Builder (`checker/flowgraph/mod.rs`, `checker/flowgraph/exprs.rs`, `checker/narrowing.rs`)

The pre-pass over a function body or a module that makes the flow nodes and records the
node of each identifier reference.  The builder threads a cursor, a stack of loops, a stack
of break targets and a stack of label frames through the statements.

Nodes carry in addition the identifier occurrence they were made for, which the source does
not store; nothing reads it but the statements about scopes.

## Main Results

- `Builder` : the state of the pre-pass
- `buildModes` : `build_flow_expr` and `build_flow_condition`
- `buildStmt` : `build_flow_stmt`
-/

namespace Typokat.Check

open Types

/-! ## §1 Guards (`narrowing.rs`) -/

/-- An identifier where it stands. -/
structure Occurrence where
  span : Span
  name : Name
  deriving DecidableEq, Repr

/-- A recognized guard fact: the symbol, the operation and the polarity of the then-branch. -/
structure GuardFact where
  symbol : SymbolId
  op : NarrowOp
  thenPositive : Bool
  occurrence : Occurrence
  deriving DecidableEq, Repr

/-- What the builder reads of the interner. -/
structure FlowEnv where
  wellKnown : WellKnown
  literalType : LiteralValue → TypeId

variable (scope : Scope)

/-- `condition_symbol`: a plain identifier in scope, `undefined` excepted. -/
def conditionSymbol : Expr → Option (SymbolId × Occurrence)
  | .identifier span name =>
    if name = "undefined" then none
    else (scope.resolveValue name).map (fun symbol => (symbol, ⟨span, name⟩))
  | _ => none

/-- `typeof_guard`. -/
def typeofGuard (typeofSide tagSide : Expr) (eqPositive : Bool) :
    Option GuardFact :=
  match typeofSide, tagSide with
  | .unary .typeof argument, .literal (.string lit) =>
    match conditionSymbol scope argument, TypeofTag.fromTagLiteral lit with
    | some (symbol, occurrence), some tag => some ⟨symbol, .typeof tag, eqPositive, occurrence⟩
    | _, _ => none
  | _, _ => none

/-- `nullish_guard`. -/
def nullishGuard (identSide nullishSide : Expr) (eqPositive : Bool) :
    Option GuardFact :=
  let isUndefined : Option Bool :=
    match nullishSide with
    | .null => some false
    | .identifier _ name => if name = "undefined" then some true else none
    | _ => none
  match isUndefined, conditionSymbol scope identSide with
  | some isUndefined, some (symbol, occurrence) =>
    some ⟨symbol, .eqNullish isUndefined, eqPositive, occurrence⟩
  | _, _ => none

/-- `member_discriminant`: a non-optional static access on an identifier. -/
def memberDiscriminant : Expr → Option (SymbolId × Name × Occurrence)
  | .staticMember object property optional =>
    if optional then none
    else (conditionSymbol scope object).map (fun found => (found.1, property, found.2))
  | _ => none

variable (env : FlowEnv)

/-- `literal_expr_type`. -/
def literalExprType : Expr → Option TypeId
  | .literal (.wellKnownSymbol _) => none
  | .literal value => some (env.literalType value)
  | _ => none

/-- `discriminant_guard`. -/
def discriminantGuard (scope : Scope) (memberSide literalSide : Expr) (eqPositive : Bool) :
    Option GuardFact :=
  match memberDiscriminant scope memberSide, literalExprType env literalSide with
  | some (symbol, property, occurrence), some literal =>
    some ⟨symbol, .discriminant property literal, eqPositive, occurrence⟩
  | _, _ => none

/-- `in_guard`. -/
def inGuard (left right : Expr) : Option GuardFact :=
  match left, conditionSymbol scope right with
  | .literal (.string property), some (symbol, occurrence) =>
    some ⟨symbol, .in property, true, occurrence⟩
  | _, _ => none

/-- `analyze_equality_guard`: `typeof` in both operand orders, then for the strict operators
the nullish and the discriminant form in both orders. -/
def analyzeEqualityGuard (scope : Scope) (op : BinaryOperator) (left right : Expr) :
    Option GuardFact :=
  let forms (strict eqPositive : Bool) : Option GuardFact :=
    match typeofGuard scope left right eqPositive with
    | some fact => some fact
    | none =>
    match typeofGuard scope right left eqPositive with
    | some fact => some fact
    | none =>
    if strict then
      match nullishGuard scope left right eqPositive with
      | some fact => some fact
      | none =>
      match nullishGuard scope right left eqPositive with
      | some fact => some fact
      | none =>
      match discriminantGuard env scope left right eqPositive with
      | some fact => some fact
      | none => discriminantGuard env scope right left eqPositive
    else none
  match op with
  | .strictEquality => forms true true
  | .equality => forms false true
  | .strictInequality => forms true false
  | .inequality => forms false false
  | _ => none

/-- `analyze_guard`. -/
def analyzeGuard (env : FlowEnv) (scope : Scope) : Expr → Option GuardFact
  | .unary .logicalNot argument =>
    (analyzeGuard env scope argument).map
      (fun fact => { fact with thenPositive := !fact.thenPositive })
  | .paren inner => analyzeGuard env scope inner
  | .assignment .assign (.identifier span name) _ =>
    (scope.resolveValue name).map (fun symbol => ⟨symbol, .truthy, true, ⟨span, name⟩⟩)
  | .identifier span name =>
    (conditionSymbol scope (.identifier span name)).map
      (fun found => ⟨found.1, .truthy, true, found.2⟩)
  | .binary .in left right => inGuard scope left right
  | .binary op left right => analyzeEqualityGuard env scope op left right
  | _ => none

/-- `clause_terminates` looks at the last statement of a clause, a block at its own last
statement.  `continue` is not a terminator. -/
def clauseTerminates : List Stmt → Bool
  | [] => false
  | [.return _] => true
  | [.break _] => true
  | [.throw _] => true
  | [.block _ body] => clauseTerminates body
  | [_] => false
  | _ :: next :: rest => clauseTerminates (next :: rest)

/-! ## §2 The state of the builder -/

/-- `FlowLabelFrame`. -/
structure LabelFrame where
  name : Name
  breaks : List FlowNodeId
  continueTarget : Option FlowNodeId
  allowsContinue : Bool
  deriving DecidableEq, Repr

/-- The fields of the checker that the pre-pass writes.  Stacks have their top first. -/
structure Builder where
  nodes : List FlowNode
  cursor : FlowNodeId
  loops : List FlowNodeId
  breakTargets : List (List FlowNodeId)
  labelTargets : List LabelFrame
  /-- `reference_flow`, newest entry first -/
  references : List (Span × FlowNodeId)
  /-- the occurrence each assignment and condition node was made for -/
  origins : List (FlowNodeId × Occurrence)

namespace Builder

/-- Before the pre-pass: the two sentinels, at flow start. -/
def initial : Builder := ⟨[.unreachable, .start], .start, [], [], [], [], []⟩

variable (b : Builder)

/-- The node recorded for a reference. -/
def referenceFlow (span : Span) : Option FlowNodeId := b.references.lookup span

/-- `new_flow`. -/
def newFlow (node : FlowNode) (b : Builder) : FlowNodeId × Builder :=
  (b.nodes.length, { b with nodes := b.nodes ++ [node] })

/-- `new_flow` for an identifier occurrence. -/
def newFlowFor (node : FlowNode) (occurrence : Occurrence) (b : Builder) : FlowNodeId × Builder :=
  (b.nodes.length,
    { b with
      nodes := b.nodes ++ [node]
      origins := (b.nodes.length, occurrence) :: b.origins })

/-- `flow_condition`: both branches of an unrecognized guard share the antecedent. -/
def flowCondition (antecedent : FlowNodeId) (fact : Option GuardFact) (thenBranch : Bool)
    (b : Builder) : FlowNodeId × Builder :=
  if antecedent = .unreachable then (.unreachable, b)
  else
    match fact with
    | some fact =>
      newFlowFor
        (.condition fact.symbol fact.op
          (if thenBranch then fact.thenPositive else !fact.thenPositive) antecedent)
        fact.occurrence b
    | none => (antecedent, b)

/-- Insertion into a sorted list without duplicates. -/
def insertSorted (node : FlowNodeId) : List FlowNodeId → List FlowNodeId
  | [] => [node]
  | first :: rest =>
    if node < first then node :: first :: rest
    else if node = first then first :: rest
    else first :: insertSorted node rest

/-- `sort_by_key` and `dedup`. -/
def sortDedup (nodes : List FlowNodeId) : List FlowNodeId := nodes.foldr insertSorted []

/-- `flow_join`. -/
def flowJoin (antecedents : List FlowNodeId) (b : Builder) : FlowNodeId × Builder :=
  match sortDedup (antecedents.filter (fun a => a ≠ .unreachable)) with
  | [] => (.unreachable, b)
  | [only] => (only, b)
  | reachable => newFlow (.branchLabel reachable) b

/-- A loop label with one more back edge. -/
def withBackEdge (edge : FlowNodeId) : FlowNode → FlowNode
  | .loopLabel pre back => .loopLabel pre (back ++ [edge])
  | node => node

/-- `add_back_edge`. -/
def addBackEdge (label edge : FlowNodeId) (b : Builder) : Builder :=
  if edge = .unreachable then b
  else { b with nodes := b.nodes.modify label (withBackEdge edge) }

/-- The cursor moves. -/
def moveTo (cursor : FlowNodeId) (b : Builder) : Builder := { b with cursor := cursor }

/-- Join and move the cursor there. -/
def joinAt (antecedents : List FlowNodeId) (b : Builder) : Builder :=
  let (node, b) := b.flowJoin antecedents
  b.moveTo node

/-- `reset_symbol`, and the node of a plain assignment. -/
def assign (symbol : SymbolId) (assigned : Option FlowType) (occurrence : Occurrence) (b : Builder) :
    Builder :=
  let (node, b') := b.newFlowFor (.assignment symbol assigned b.cursor) occurrence
  b'.moveTo node

/-- A break edge to the nearest breakable. -/
def pushBreak (cursor : FlowNodeId) (b : Builder) : Builder :=
  match b.breakTargets with
  | [] => b
  | target :: rest => { b with breakTargets := (target ++ [cursor]) :: rest }

/-- `add_labeled_break` on the frames: the innermost of that name. -/
def addBreak (name : Name) (cursor : FlowNodeId) : List LabelFrame → List LabelFrame
  | [] => []
  | frame :: rest =>
    if frame.name = name then { frame with breaks := frame.breaks ++ [cursor] } :: rest
    else frame :: addBreak name cursor rest

/-- `add_labeled_break`. -/
def addLabeledBreak (name : Name) (cursor : FlowNodeId) (b : Builder) : Builder :=
  { b with labelTargets := addBreak name cursor b.labelTargets }

/-- `labeled_continue_target`. -/
def labeledContinueTarget (name : Name) (b : Builder) : Option FlowNodeId :=
  (b.labelTargets.find? (fun frame => frame.name = name)).bind LabelFrame.continueTarget

/-- A loop label becomes the continue target of the labels directly on the loop. -/
def setContinueTargets (label : FlowNodeId) : List LabelFrame → List LabelFrame
  | [] => []
  | frame :: rest =>
    if frame.allowsContinue then
      { frame with continueTarget := frame.continueTarget.or (some label) } ::
        setContinueTargets label rest
    else frame :: rest

/-- The start of `build_flow_while`: the label, the continue targets, the cursor. -/
def openLoop : Builder :=
  let (label, b) := b.newFlow (.loopLabel [b.cursor] [])
  { b with cursor := label, labelTargets := setContinueTargets label b.labelTargets }

/-- The frames of a loop body. -/
def pushLoop (label cursor : FlowNodeId) (b : Builder) : Builder :=
  { b with cursor := cursor, loops := label :: b.loops, breakTargets := [] :: b.breakTargets }

/-- The break edges collected in the innermost frame. -/
def topBreaks : List FlowNodeId := b.breakTargets.headD []

/-- The frames of a loop body go. -/
def popLoop : Builder :=
  { b with loops := b.loops.tail, breakTargets := b.breakTargets.tail }

/-- The break frame of a `switch`. -/
def pushSwitch : Builder := { b with breakTargets := [] :: b.breakTargets }

def popSwitch : Builder := { b with breakTargets := b.breakTargets.tail }

/-- The frame of a labeled statement. -/
def pushLabel (label : Name) (allowsContinue : Bool) (b : Builder) : Builder :=
  { b with labelTargets := ⟨label, [], none, allowsContinue⟩ :: b.labelTargets }

/-- The breaks collected for the innermost label. -/
def labelBreaks : List FlowNodeId :=
  (b.labelTargets.head?.map LabelFrame.breaks).getD []

def popLabel : Builder := { b with labelTargets := b.labelTargets.tail }

/-- The builder at the start of a body with its own flow. -/
def fresh : Builder :=
  { b with cursor := .start, loops := [], breakTargets := [], labelTargets := [] }

/-- `build_flow_boundary`: a body at a fresh `START` with empty stacks. -/
def boundary (build : Builder → Builder) (b : Builder) : Builder :=
  let built := build b.fresh
  { built with
    cursor := b.cursor
    loops := b.loops
    breakTargets := b.breakTargets
    labelTargets := b.labelTargets }

end Builder

/-- `labeled_statement_allows_continue`. -/
def labeledStatementAllowsContinue : Stmt → Bool
  | .while _ _ => true
  | .labeled _ body => labeledStatementAllowsContinue body
  | _ => false

/-- `flow_assigned`: the widened base of a literal; every richer right side resets. -/
def flowAssigned (env : FlowEnv) : Expr → Option FlowType
  | .literal (.string _) => some (.union {.other env.wellKnown.string})
  | .literal (.number _) => some (.union {.other env.wellKnown.number})
  | .literal (.boolean _) => some (.union {.boolean})
  | .null => some (.union {.other env.wellKnown.null})
  | .identifier _ name =>
    if name = "undefined" then some (.union {.other env.wellKnown.undefined}) else none
  | .paren inner => flowAssigned env inner
  | _ => none

/-- `assignable_symbol` and `reset_symbol` for one identifier. -/
def resetIdentifier (span : Span) (name : Name) (b : Builder) : Builder :=
  match scope.resolveValue name with
  | some symbol => b.assign symbol none ⟨span, name⟩
  | none => b

mutual

/-- `reset_pattern_targets` and `reset_maybe_default`: every identifier that a pattern binds,
in order; a default is not walked, and a member target binds nothing. -/
def resetPatternTargets (scope : Scope) : Expr → Builder → Builder
  | .identifier span name, b => resetIdentifier scope span name b
  | .operands .array parts, b => resetAllTargets scope parts b
  | .operands .object parts, b => resetAllTargets scope parts b
  | .assignment .assign target _, b => resetPatternTargets scope target b
  | _, b => b

def resetAllTargets (scope : Scope) : List Expr → Builder → Builder
  | [], b => b
  | target :: rest, b => resetAllTargets scope rest (resetPatternTargets scope target b)

end

/-- `build_flow_assignment` after its right operand. -/
def assignTarget (scope : Scope) (op : AssignmentOperator) (target right : Expr) (b : Builder) :
    Builder :=
  if b.cursor = .unreachable then b
  else
    match target with
    | .identifier span name =>
      match scope.resolveValue name with
      | none => b
      | some symbol =>
        b.assign symbol (if op = .assign then flowAssigned env right else none) ⟨span, name⟩
    | _ => resetPatternTargets scope target b

/-- `switch_case_entry`.  The negated labels of `default` form a chain. -/
def switchCaseEntry (pre : FlowNodeId) (discriminant : Option (SymbolId × Name × Occurrence))
    (caseLabels : List TypeId) (clause : Clause) (b : Builder) : FlowNodeId × Builder :=
  if pre = .unreachable then (.unreachable, b)
  else
    match discriminant with
    | none => (pre, b)
    | some (symbol, property, occurrence) =>
      match clause with
      | .case test _ =>
        match literalExprType env test with
        | some literal =>
          b.newFlowFor (.condition symbol (.discriminant property literal) true pre) occurrence
        | none => (pre, b)
      | .default _ =>
        caseLabels.foldl
          (fun entry literal =>
            entry.2.newFlowFor
              (.condition symbol (.discriminant property literal) false entry.1) occurrence)
          (pre, b)

/-- The literals of the labeled clauses, for the complement of `default`. -/
def caseLabels (clauses : List Clause) : List TypeId :=
  clauses.filterMap (fun clause =>
    match clause with
    | .case test _ => literalExprType env test
    | .default _ => none)

/-- A clause without a test stands in the `switch`. -/
def hasDefault (clauses : List Clause) : Bool :=
  clauses.any (fun clause =>
    match clause with
    | .case _ _ => false
    | .default _ => true)

/-! ## §3 Expressions and statements -/

/-- An expression is built for its value or as a condition; a condition leaves the flow of
its true and of its false edge. -/
structure Modes where
  value : Builder → Builder
  condition : Builder → (FlowNodeId × FlowNodeId) × Builder

/-- A leaf of a condition: the single-guard pair. -/
def Modes.leaf (scope : Scope) (expr : Expr) (value : Builder → Builder) : Modes where
  value := value
  condition := fun b =>
    let b := value b
    let pre := b.cursor
    let fact := analyzeGuard env scope expr
    let (whenTrue, b) := b.flowCondition pre fact true
    let (whenFalse, b) := b.flowCondition pre fact false
    ((whenTrue, whenFalse), b)

/-- `build_flow_condition_logical`. -/
def conditionLogical (op : LogicalOperator) (left right : Modes) (b : Builder) :
    (FlowNodeId × FlowNodeId) × Builder :=
  match op with
  | .and =>
    let ((leftTrue, leftFalse), b) := left.condition b
    let ((rightTrue, rightFalse), b) := right.condition (b.moveTo leftTrue)
    let (falseFlow, b) := b.flowJoin [leftFalse, rightFalse]
    ((rightTrue, falseFlow), b)
  | .or =>
    let ((leftTrue, leftFalse), b) := left.condition b
    let ((rightTrue, rightFalse), b) := right.condition (b.moveTo leftFalse)
    let (trueFlow, b) := b.flowJoin [leftTrue, rightTrue]
    ((trueFlow, rightFalse), b)
  | .coalesce =>
    let b := left.value b
    let skipFlow := b.cursor
    let b := right.value b
    let (post, b) := b.flowJoin [skipFlow, b.cursor]
    ((post, post), b)

/-- `build_flow_logical`: the two edges joined back together. -/
def valueLogical (op : LogicalOperator) (left right : Modes) (b : Builder) : Builder :=
  let ((trueFlow, falseFlow), b) := conditionLogical op left right b
  b.joinAt [trueFlow, falseFlow]

/-- `build_flow_conditional`. -/
def buildFlowConditional (test consequent alternate : Modes) (b : Builder) : Builder :=
  let ((thenFlow, elseFlow), b) := test.condition b
  let b := consequent.value (b.moveTo thenFlow)
  let thenEnd := b.cursor
  let b := alternate.value (b.moveTo elseFlow)
  b.joinAt [thenEnd, b.cursor]

/-- `build_flow_if`. -/
def buildFlowIf (test : Modes) (consequent alternate : Builder → Builder) (b : Builder) :
    Builder :=
  let ((condTrue, condFalse), b) := test.condition b
  let b := consequent (b.moveTo condTrue)
  let thenEnd := b.cursor
  let b := alternate (b.moveTo condFalse)
  b.joinAt [thenEnd, b.cursor]

/-- `build_flow_while`. -/
def buildFlowWhile (test : Modes) (body : Builder → Builder) (b : Builder) : Builder :=
  if b.cursor = .unreachable then b
  else
    let label := b.nodes.length
    let ((condTrue, condFalse), b) := test.condition b.openLoop
    let b := body (b.pushLoop label condTrue)
    let b := b.addBackEdge label b.cursor
    b.popLoop.joinAt (condFalse :: b.topBreaks)

/-- `build_flow_labeled`. -/
def buildFlowLabeled (label : Name) (allowsContinue : Bool) (body : Builder → Builder) (b : Builder) :
    Builder :=
  let b := body (b.pushLabel label allowsContinue)
  b.popLabel.joinAt (b.cursor :: b.labelBreaks)

/-- `build_flow_break`. -/
def buildFlowBreak (label : Option Name) (b : Builder) : Builder :=
  let b :=
    match label with
    | some name => b.addLabeledBreak name b.cursor
    | none => b.pushBreak b.cursor
  b.moveTo .unreachable

/-- `build_flow_continue`. -/
def buildFlowContinue (label : Option Name) (b : Builder) : Builder :=
  let target :=
    match label with
    | some name => b.labeledContinueTarget name
    | none => b.loops.head?
  let b :=
    match target with
    | some target => b.addBackEdge target b.cursor
    | none => b
  b.moveTo .unreachable

/-- The entry of a clause: a direct match, or the fall-through of the clause before. -/
def enterClause (fellThrough : Option FlowNodeId) (direct : FlowNodeId) (b : Builder) : Builder :=
  match fellThrough with
  | some prevEnd => b.joinAt [prevEnd, direct]
  | none => b.moveTo direct

/-- `build_flow_switch` around its clauses. -/
def buildFlowSwitch (discriminant : Modes) (clauses : FlowNodeId → Builder → Builder)
    (hasDefault : Bool) (b : Builder) : Builder :=
  let b := discriminant.value b
  let pre := b.cursor
  let b := clauses pre b.pushSwitch
  b.popSwitch.joinAt (b.cursor :: b.topBreaks ++ (if hasDefault then [] else [pre]))

mutual

/-- `build_flow_expr` and `build_flow_condition` of one expression. -/
def buildModes (env : FlowEnv) (scope : Scope) : Expr → Modes
  | .identifier span name =>
    .leaf env scope (.identifier span name)
      (fun b => { b with references := (span, b.cursor) :: b.references })
  | .paren inner =>
    ⟨(buildModes env scope inner).value, (buildModes env scope inner).condition⟩
  | .logical op left right =>
    ⟨valueLogical op (buildModes env scope left) (buildModes env scope right),
      conditionLogical op (buildModes env scope left) (buildModes env scope right)⟩
  | .conditional test consequent alternate =>
    .leaf env scope (.conditional test consequent alternate)
      (buildFlowConditional (buildModes env scope test) (buildModes env scope consequent)
        (buildModes env scope alternate))
  | .assignment op target right =>
    .leaf env scope (.assignment op target right) (fun b =>
      assignTarget env scope op target right ((buildModes env scope right).value b))
  | .unary .logicalNot argument =>
    ⟨(buildModes env scope argument).value, fun b =>
      let ((trueFlow, falseFlow), b) := (buildModes env scope argument).condition b
      ((falseFlow, trueFlow), b)⟩
  | .unary op argument =>
    .leaf env scope (.unary op argument) (buildModes env scope argument).value
  | .binary op left right =>
    .leaf env scope (.binary op left right) (fun b =>
      (buildModes env scope right).value ((buildModes env scope left).value b))
  | .staticMember object property optional =>
    .leaf env scope (.staticMember object property optional) (buildModes env scope object).value
  | .operands form parts =>
    .leaf env scope (.operands form parts) (buildExprs env scope parts)
  | .function inner params body =>
    .leaf env scope (.function inner params body)
      (Builder.boundary (buildStmts env (inner.getD scope) body))
  | .arrow inner params body =>
    .leaf env scope (.arrow inner params body)
      (Builder.boundary (buildModes env (inner.getD scope) body).value)
  | .initializer isStatic value =>
    .leaf env scope (.initializer isStatic value)
      (Builder.boundary (buildModes env scope value).value)
  -- literals carry no reference; the other forms have no arm
  | expr => .leaf env scope expr id

def buildExprs (env : FlowEnv) (scope : Scope) : List Expr → Builder → Builder
  | [], b => b
  | expr :: rest, b => buildExprs env scope rest ((buildModes env scope expr).value b)

/-- `build_flow_stmt`. -/
def buildStmt (env : FlowEnv) (scope : Scope) : Stmt → Builder → Builder
  | .declaration _ _ init, b => (buildModes env scope init).value b
  | .function _ inner _ body, b => b.boundary (buildStmts env (inner.getD scope) body)
  | .class _ elements, b => buildExprs env scope elements b
  | .expression expr, b => (buildModes env scope expr).value b
  | .return argument, b => (buildExprs env scope argument b).moveTo .unreachable
  | .throw argument, b => ((buildModes env scope argument).value b).moveTo .unreachable
  | .ite test consequent alternate, b =>
    buildFlowIf (buildModes env scope test) (buildStmt env scope consequent)
      (buildStmt env scope alternate) b
  | .block inner body, b => buildStmts env (inner.getD scope) body b
  | .switch _ discriminant clauses, b =>
    buildFlowSwitch (buildModes env scope discriminant)
      (fun pre => buildClauses env scope pre (memberDiscriminant scope discriminant)
        (caseLabels env clauses) clauses none)
      (hasDefault clauses) b
  | .while test body, b => buildFlowWhile (buildModes env scope test) (buildStmt env scope body) b
  | .labeled label body, b =>
    buildFlowLabeled label (labeledStatementAllowsContinue body) (buildStmt env scope body) b
  | .break label, b => buildFlowBreak label b
  | .continue label, b => buildFlowContinue label b
  -- a declaration without initializer, the empty statement, and the forms left out
  | _, b => b

def buildStmts (env : FlowEnv) (scope : Scope) : List Stmt → Builder → Builder
  | [], b => b
  | stmt :: rest, b => buildStmts env scope rest (buildStmt env scope stmt b)

/-- The clause loop of `build_flow_switch`, with the fall-through edge of the clause before. -/
def buildClauses (env : FlowEnv) (scope : Scope) (pre : FlowNodeId)
    (discriminant : Option (SymbolId × Name × Occurrence)) (labels : List TypeId) :
    List Clause → Option FlowNodeId → Builder → Builder
  | [], _, b => b
  | .case test consequent :: rest, fellThrough, b =>
    let (direct, b) := switchCaseEntry env pre discriminant labels (.case test consequent) b
    let b := buildStmts env scope consequent (enterClause fellThrough direct b)
    buildClauses env scope pre discriminant labels rest
      (if clauseTerminates consequent then none else some b.cursor) b
  | .default consequent :: rest, fellThrough, b =>
    let (direct, b) := switchCaseEntry env pre discriminant labels (.default consequent) b
    let b := buildStmts env scope consequent (enterClause fellThrough direct b)
    buildClauses env scope pre discriminant labels rest
      (if clauseTerminates consequent then none else some b.cursor) b

end

/-! ## §4 The setting of the examples -/

/-- An interner with its intrinsic types only. -/
def exampleEnv : FlowEnv := ⟨WellKnown.ofKinds IntrinsicKind.discriminant, fun _ => 19⟩

/-- The scope of a function with the parameter `x`. -/
def exampleScope : Scope := [⟨0, ["x"]⟩]

end Typokat.Check
