import Typokat.Check.FlowBuild

/-!
# Executions

What a body does when it runs, as far as flow analysis is concerned: the sequence of its
assignments, of the outcomes of its recognized guards and of the identifiers it reads.  A
test may go either way, so a run that is cut short anywhere is the beginning of a complete
one; the relations below have complete runs only.

Names are looked up in the scope in which they stand: the scope of the block, the function
or the `switch` around them.

The forms that the flow builder leaves out run in any order, any number of times: they are
known by the symbols they can assign and by the jumps that can leave them.  What they assign is
hidden from the builder; and the right side of a logical assignment, which the builder always
walks, can be skipped.  Both stand in the events, so that a run tells whether it keeps to what
the builder sees.

## Main Results

- `Evaluates` : executions of expressions
- `Runs` : executions of statements
-/

namespace Typokat.Check

open Types

/-! ## §1 Events and outcomes -/

/-- What an execution does. -/
inductive Event
  /-- `none` is a value of which only the declared type of the symbol is known -/
  | assign (symbol : SymbolId) (assigned : Option FlowType)
  | guard (symbol : SymbolId) (op : NarrowOp) (positive : Bool)
  | reference (span : Span)
  /-- an assignment in a form or position that the builder leaves out -/
  | hidden (symbol : SymbolId)
  /-- a right side that the builder walks is skipped, with nodes about the symbol in it -/
  | skipped (symbol : SymbolId)
  deriving DecidableEq

/-- How the execution of a statement ends. -/
inductive Outcome
  | normal
  /-- `return` and `throw` -/
  | exited
  | broke (label : Option Name)
  | continued (label : Option Name)
  deriving DecidableEq, Repr

/-! ## §2 What the forms left out can do -/

mutual

/-- The symbols that evaluating an expression can assign, bodies of functions excepted. -/
def assignedExpr (scope : Scope) : Expr → List SymbolId
  | .paren inner => assignedExpr scope inner
  | .unary _ argument => assignedExpr scope argument
  | .binary _ left right => assignedExpr scope left ++ assignedExpr scope right
  | .logical _ left right => assignedExpr scope left ++ assignedExpr scope right
  | .conditional test consequent alternate =>
    assignedExpr scope test ++ assignedExpr scope consequent ++ assignedExpr scope alternate
  | .assignment _ target right => assignedTarget scope target ++ assignedExpr scope right
  | .staticMember object _ _ => assignedExpr scope object
  | .operands _ parts => assignedExprs scope parts
  | .initializer isStatic value => if isStatic then assignedExpr scope value else []
  | .update argument => assignedTarget scope argument
  | .unbuilt parts => assignedExprs scope parts
  | _ => []

def assignedExprs (scope : Scope) : List Expr → List SymbolId
  | [] => []
  | expr :: rest => assignedExpr scope expr ++ assignedExprs scope rest

/-- The symbols that assigning to a target can assign: those of the identifiers in it, also
under a wrapper, and those that its defaults and the operands of its members assign. -/
def assignedTarget (scope : Scope) : Expr → List SymbolId
  | .identifier _ name => (scope.resolveValue name).toList
  | .paren inner => assignedTarget scope inner
  | .operands .array parts => assignedTargets scope parts
  | .operands .object parts => assignedTargets scope parts
  | .operands .assertion parts => assignedTargets scope parts
  | .unbuilt parts => assignedTargets scope parts
  | .assignment _ target value => assignedTarget scope target ++ assignedExpr scope value
  | .staticMember object _ _ => assignedExpr scope object
  | .operands _ parts => assignedExprs scope parts
  | _ => []

def assignedTargets (scope : Scope) : List Expr → List SymbolId
  | [] => []
  | target :: rest => assignedTarget scope target ++ assignedTargets scope rest

end

mutual

/-- The symbols that running a statement can assign, bodies of functions excepted. -/
def assignedStmt (scope : Scope) : Stmt → List SymbolId
  | .declaration isVar names init =>
    assignedExpr scope init ++ (if isVar then names.filterMap scope.resolveValue else [])
  | .class _ elements => assignedExprs scope elements
  | .expression expr => assignedExpr scope expr
  | .return argument => assignedExprs scope argument
  | .throw argument => assignedExpr scope argument
  | .ite test consequent alternate =>
    assignedExpr scope test ++ assignedStmt scope consequent ++ assignedStmt scope alternate
  | .block inner body => assignedStmts (inner.getD scope) body
  | .switch inner discriminant clauses =>
    assignedExpr scope discriminant ++ assignedClauses (inner.getD scope) clauses
  | .while test body => assignedExpr scope test ++ assignedStmt scope body
  | .labeled _ body => assignedStmt scope body
  | .unbuilt _ inner _ parts bodies =>
    assignedExprs (inner.getD scope) parts ++ assignedStmts (inner.getD scope) bodies
  | _ => []

def assignedStmts (scope : Scope) : List Stmt → List SymbolId
  | [] => []
  | stmt :: rest => assignedStmt scope stmt ++ assignedStmts scope rest

def assignedClauses (scope : Scope) : List Clause → List SymbolId
  | [] => []
  | .case test consequent :: rest =>
    assignedExpr scope test ++ assignedStmts scope consequent ++ assignedClauses scope rest
  | .default consequent :: rest => assignedStmts scope consequent ++ assignedClauses scope rest

end

/-- The symbols that evaluating the tests of the clauses can assign. -/
def assignedTests (scope : Scope) (clauses : List Clause) : List SymbolId :=
  clauses.flatMap (fun clause =>
    match clause with
    | .case test _ => assignedExpr scope test
    | .default _ => [])

/-- The jumps that are about a loop, a `switch` or a label. -/
def Outcome.isBreak : Outcome → Bool
  | .broke none => true
  | _ => false

def Outcome.isLoopJump : Outcome → Bool
  | .broke none => true
  | .continued none => true
  | _ => false

def Outcome.isJumpTo (label : Name) : Outcome → Bool
  | .broke (some name) => name = label
  | .continued (some name) => name = label
  | _ => false

mutual

/-- The jumps that can leave a statement. -/
def Stmt.jumps : Stmt → List Outcome
  | .ite _ consequent alternate => consequent.jumps ++ alternate.jumps
  | .block _ body => jumpsList body
  | .switch _ _ clauses => (jumpsClauses clauses).filter (fun jump => !jump.isBreak)
  | .while _ body => body.jumps.filter (fun jump => !jump.isLoopJump)
  | .labeled label body => body.jumps.filter (fun jump => !jump.isJumpTo label)
  | .break label => [.broke label]
  | .continue label => [.continued label]
  | .unbuilt form _ _ _ bodies =>
    if form.isLoop then (jumpsList bodies).filter (fun jump => !jump.isLoopJump)
    else jumpsList bodies
  | _ => []

def jumpsList : List Stmt → List Outcome
  | [] => []
  | stmt :: rest => stmt.jumps ++ jumpsList rest

def jumpsClauses : List Clause → List Outcome
  | [] => []
  | .case _ consequent :: rest => jumpsList consequent ++ jumpsClauses rest
  | .default consequent :: rest => jumpsList consequent ++ jumpsClauses rest

end

/-- The symbols that building an expression makes nodes for, for its value and as a
condition. -/
structure Touched where
  value : List SymbolId
  test : List SymbolId

def Touched.leaf (env : FlowEnv) (scope : Scope) (expr : Expr) (value : List SymbolId) : Touched :=
  ⟨value, value ++ ((analyzeGuard env scope expr).map GuardFact.symbol).toList⟩

mutual

/-- The symbols that an expression assigns or guards. -/
def touchedExpr (env : FlowEnv) (scope : Scope) : Expr → Touched
  | .paren inner => ⟨(touchedExpr env scope inner).value, (touchedExpr env scope inner).test⟩
  | .logical .coalesce left right =>
    ⟨(touchedExpr env scope left).value ++ (touchedExpr env scope right).value,
      (touchedExpr env scope left).value ++ (touchedExpr env scope right).value⟩
  | .logical _ left right =>
    ⟨(touchedExpr env scope left).test ++ (touchedExpr env scope right).test,
      (touchedExpr env scope left).test ++ (touchedExpr env scope right).test⟩
  | .conditional test consequent alternate =>
    .leaf env scope (.conditional test consequent alternate)
      ((touchedExpr env scope test).test ++ ((touchedExpr env scope consequent).value ++
        (touchedExpr env scope alternate).value))
  | .assignment op target right =>
    .leaf env scope (.assignment op target right)
      ((touchedExpr env scope right).value ++ assignedTarget scope target)
  | .unary .logicalNot argument =>
    ⟨(touchedExpr env scope argument).value, (touchedExpr env scope argument).test⟩
  | .unary op argument =>
    .leaf env scope (.unary op argument) (touchedExpr env scope argument).value
  | .binary op left right =>
    .leaf env scope (.binary op left right)
      ((touchedExpr env scope left).value ++ (touchedExpr env scope right).value)
  | .staticMember object property optional =>
    .leaf env scope (.staticMember object property optional) (touchedExpr env scope object).value
  | .operands form parts =>
    .leaf env scope (.operands form parts) (touchedExprs env scope parts)
  | expr => .leaf env scope expr (assignedExpr scope expr)

def touchedExprs (env : FlowEnv) (scope : Scope) : List Expr → List SymbolId
  | [] => []
  | expr :: rest => (touchedExpr env scope expr).value ++ touchedExprs env scope rest

end

/-- Assignments that the builder leaves out, to the given symbols. -/
def Writes (symbols : List SymbolId) (events : List Event) : Prop :=
  ∀ event ∈ events, ∃ symbol ∈ symbols, event = .hidden symbol

/-! ## §3 Expressions -/

/-- What is evaluated. -/
inductive EvalTask
  | value (expr : Expr)
  | values (exprs : List Expr)
  /-- as a condition that comes out so -/
  | test (expr : Expr) (result : Bool)
  /-- a value is stored into a target -/
  | target (target : Expr)
  | targets (targets : List Expr)

/-- A test that is no composed condition. -/
def Expr.isLeaf : Expr → Bool
  | .paren _ => false
  | .unary .logicalNot _ => false
  | .logical _ _ _ => false
  | _ => true

/-- The target forms into which a value is stored identifier by identifier. -/
def Expr.isPattern : Expr → Bool
  | .identifier _ _ => true
  | .operands .array _ => true
  | .operands .object _ => true
  | .assignment .assign _ _ => true
  | _ => false

/-- The outcome of a recognized guard. -/
def guardEvents (fact : Option GuardFact) (result : Bool) : List Event :=
  match fact with
  | some fact =>
    [.guard fact.symbol fact.op (if result then fact.thenPositive else !fact.thenPositive)]
  | none => []

/-- The assignment to a plain identifier. -/
def writeEvents (scope : Scope) (name : Name) (assigned : Option FlowType) : List Event :=
  match scope.resolveValue name with
  | some symbol => [.assign symbol assigned]
  | none => []

/-- **Executions of expressions.** -/
inductive Evaluates (env : FlowEnv) (scope : Scope) : EvalTask → List Event → Prop
  | identifier (span : Span) (name : Name) :
      Evaluates env scope (.value (.identifier span name)) [.reference span]
  | literal (value : LiteralValue) : Evaluates env scope (.value (.literal value)) []
  | null : Evaluates env scope (.value .null) []
  | paren {inner : Expr} {events : List Event} :
      Evaluates env scope (.value inner) events →
      Evaluates env scope (.value (.paren inner)) events
  | unary {op : UnaryOperator} {argument : Expr} {events : List Event} :
      Evaluates env scope (.value argument) events →
      Evaluates env scope (.value (.unary op argument)) events
  | binary {op : BinaryOperator} {left right : Expr} {first second : List Event} :
      Evaluates env scope (.value left) first → Evaluates env scope (.value right) second →
      Evaluates env scope (.value (.binary op left right)) (first ++ second)
  -- the value of a logical expression is truthy or not
  | logical {op : LogicalOperator} {left right : Expr} {result : Bool} {events : List Event} :
      Evaluates env scope (.test (.logical op left right) result) events →
      Evaluates env scope (.value (.logical op left right)) events
  | conditional {test consequent alternate : Expr} {result : Bool} {first second : List Event} :
      Evaluates env scope (.test test result) first →
      Evaluates env scope (.value (if result then consequent else alternate)) second →
      Evaluates env scope (.value (.conditional test consequent alternate)) (first ++ second)
  | assign {op : AssignmentOperator} {right : Expr} {events : List Event} (span : Span)
      (name : Name) : op ≠ .logical → Evaluates env scope (.value right) events →
      Evaluates env scope (.value (.assignment op (.identifier span name) right))
        (events ++ writeEvents scope name (if op = .assign then flowAssigned env right else none))
  | destructure {op : AssignmentOperator} {target right : Expr} {first second : List Event} :
      (∀ span name, target ≠ .identifier span name) → op ≠ .logical →
      Evaluates env scope (.value right) first → Evaluates env scope (.target target) second →
      Evaluates env scope (.value (.assignment op target right)) (first ++ second)
  | logicalAssign {target right : Expr} {first second : List Event} :
      Evaluates env scope (.value right) first → Evaluates env scope (.target target) second →
      Evaluates env scope (.value (.assignment .logical target right)) (first ++ second)
  -- the value that stays counts as one of the declared type
  | logicalSkip {target : Expr} {events : List Event} (right : Expr) :
      Evaluates env scope (.target target) events →
      Evaluates env scope (.value (.assignment .logical target right))
        ((touchedExpr env scope right).value.map .skipped ++ events)
  | staticMember {object : Expr} {property : Name} {optional : Bool} {events : List Event} :
      Evaluates env scope (.value object) events →
      Evaluates env scope (.value (.staticMember object property optional)) events
  | operands {form : OperandForm} {parts : List Expr} {events : List Event} :
      Evaluates env scope (.values parts) events →
      Evaluates env scope (.value (.operands form parts)) events
  | function (inner : Option Scope) (params : List Name) (body : List Stmt) :
      Evaluates env scope (.value (.function inner params body)) []
  | arrow (inner : Option Scope) (params : List Name) (body : Expr) :
      Evaluates env scope (.value (.arrow inner params body)) []
  | initializer {isStatic : Bool} {value : Expr} {events : List Event} :
      Writes (assignedExpr scope (.initializer isStatic value)) events →
      Evaluates env scope (.value (.initializer isStatic value)) events
  | update {argument : Expr} {events : List Event} :
      Writes (assignedExpr scope (.update argument)) events →
      Evaluates env scope (.value (.update argument)) events
  | unbuilt {parts : List Expr} {events : List Event} :
      Writes (assignedExpr scope (.unbuilt parts)) events →
      Evaluates env scope (.value (.unbuilt parts)) events
  | nil : Evaluates env scope (.values []) []
  | cons {expr : Expr} {rest : List Expr} {first second : List Event} :
      Evaluates env scope (.value expr) first → Evaluates env scope (.values rest) second →
      Evaluates env scope (.values (expr :: rest)) (first ++ second)
  | testParen {inner : Expr} {result : Bool} {events : List Event} :
      Evaluates env scope (.test inner result) events →
      Evaluates env scope (.test (.paren inner) result) events
  | testNot {argument : Expr} {result : Bool} {events : List Event} :
      Evaluates env scope (.test argument (!result)) events →
      Evaluates env scope (.test (.unary .logicalNot argument) result) events
  | andFalse {left right : Expr} {events : List Event} :
      Evaluates env scope (.test left false) events →
      Evaluates env scope (.test (.logical .and left right) false) events
  | andTrue {left right : Expr} {result : Bool} {first second : List Event} :
      Evaluates env scope (.test left true) first → Evaluates env scope (.test right result) second →
      Evaluates env scope (.test (.logical .and left right) result) (first ++ second)
  | orTrue {left right : Expr} {events : List Event} :
      Evaluates env scope (.test left true) events →
      Evaluates env scope (.test (.logical .or left right) true) events
  | orFalse {left right : Expr} {result : Bool} {first second : List Event} :
      Evaluates env scope (.test left false) first → Evaluates env scope (.test right result) second →
      Evaluates env scope (.test (.logical .or left right) result) (first ++ second)
  | coalesceLeft {left right : Expr} {events : List Event} (result : Bool) :
      Evaluates env scope (.value left) events →
      Evaluates env scope (.test (.logical .coalesce left right) result) events
  | coalesceRight {left right : Expr} {first second : List Event} (result : Bool) :
      Evaluates env scope (.value left) first → Evaluates env scope (.value right) second →
      Evaluates env scope (.test (.logical .coalesce left right) result) (first ++ second)
  | leaf {expr : Expr} {events : List Event} (result : Bool) : expr.isLeaf = true →
      Evaluates env scope (.value expr) events →
      Evaluates env scope (.test expr result)
        (events ++ guardEvents (analyzeGuard env scope expr) result)
  | targetIdentifier (span : Span) (name : Name) :
      Evaluates env scope (.target (.identifier span name)) (writeEvents scope name none)
  | targetArray {parts : List Expr} {events : List Event} :
      Evaluates env scope (.targets parts) events →
      Evaluates env scope (.target (.operands .array parts)) events
  | targetObject {parts : List Expr} {events : List Event} :
      Evaluates env scope (.targets parts) events →
      Evaluates env scope (.target (.operands .object parts)) events
  | targetDefault {target value : Expr} {first second : List Event} :
      Writes (assignedExpr scope value) first → Evaluates env scope (.target target) second →
      Evaluates env scope (.target (.assignment .assign target value)) (first ++ second)
  -- members and wrapped targets
  | targetOther {target : Expr} {events : List Event} : target.isPattern = false →
      Writes (assignedTarget scope target) events → Evaluates env scope (.target target) events
  | targetsNil : Evaluates env scope (.targets []) []
  | targetsCons {target : Expr} {rest : List Expr} {first second : List Event} :
      Evaluates env scope (.target target) first → Evaluates env scope (.targets rest) second →
      Evaluates env scope (.targets (target :: rest)) (first ++ second)

/-! ## §4 Statements -/

/-- What is run. -/
inductive RunTask
  /-- with the labels that stand directly on it -/
  | stmt (labels : List Name) (stmt : Stmt)
  | stmts (stmts : List Stmt)
  /-- the passes of a `while` from here on -/
  | loop (labels : List Name) (test : Expr) (body : Stmt)
  /-- the clauses of a `switch` from here on, one falling through to the next -/
  | clauses (clauses : List Clause)

/-- The body of a loop with these labels goes on to the next pass. -/
def Outcome.goesOn (labels : List Name) : Outcome → Bool
  | .normal => true
  | .continued none => true
  | .continued (some label) => labels.contains label
  | _ => false

/-- What becomes of an outcome of the body at a label, of a `switch` or loop. -/
def Outcome.atLabel (label : Name) (outcome : Outcome) : Outcome :=
  if outcome = .broke (some label) then .normal else outcome

def Outcome.atBreakable (outcome : Outcome) : Outcome :=
  if outcome = .broke none then .normal else outcome

/-- The guard outcomes of entering a clause: its literal matched, or for `default` no literal
of the other clauses did. -/
def entryEvents (env : FlowEnv) (discriminant : Option (SymbolId × Name × Occurrence))
    (labels : List TypeId) : Clause → List Event
  | .case test _ =>
    match discriminant, literalExprType env test with
    | some (symbol, property, _), some literal =>
      [.guard symbol (.discriminant property literal) true]
    | _, _ => []
  | .default _ =>
    match discriminant with
    | some (symbol, property, _) =>
      labels.map (fun literal => .guard symbol (.discriminant property literal) false)
    | none => []

/-- A `var` with an initializer assigns, and the builder walks its initializer only. -/
def declareEvents (scope : Scope) (isVar : Bool) (names : List Name) : List Event :=
  if isVar then (names.filterMap scope.resolveValue).map .hidden
  else []

/-- **Executions of statements.** -/
inductive Runs (env : FlowEnv) : Scope → RunTask → List Event → Outcome → Prop
  | empty {scope : Scope} (labels : List Name) : Runs env scope (.stmt labels .empty) [] .normal
  | «variable» {scope : Scope} (labels : List Name) (isVar : Bool) (names : List Name) :
      Runs env scope (.stmt labels (.variable isVar names)) [] .normal
  | declaration {scope : Scope} {init : Expr} {events : List Event} (labels : List Name)
      (isVar : Bool) (names : List Name) : Evaluates env scope (.value init) events →
      Runs env scope (.stmt labels (.declaration isVar names init))
        (events ++ declareEvents scope isVar names) .normal
  | function {scope : Scope} (labels : List Name) (name : Name) (inner : Option Scope)
      (params : List Name) (body : List Stmt) :
      Runs env scope (.stmt labels (.function name inner params body)) [] .normal
  | «class» {scope : Scope} {elements : List Expr} {events : List Event} (labels : List Name)
      (name : Name) : Evaluates env scope (.values elements) events →
      Runs env scope (.stmt labels (.class name elements)) events .normal
  | expression {scope : Scope} {expr : Expr} {events : List Event} (labels : List Name) :
      Evaluates env scope (.value expr) events →
      Runs env scope (.stmt labels (.expression expr)) events .normal
  | «return» {scope : Scope} {argument : List Expr} {events : List Event} (labels : List Name) :
      Evaluates env scope (.values argument) events →
      Runs env scope (.stmt labels (.return argument)) events .exited
  | throw {scope : Scope} {argument : Expr} {events : List Event} (labels : List Name) :
      Evaluates env scope (.value argument) events →
      Runs env scope (.stmt labels (.throw argument)) events .exited
  | ite {scope : Scope} {test : Expr} {consequent alternate : Stmt} {result : Bool}
      {first second : List Event} {outcome : Outcome} (labels : List Name) :
      Evaluates env scope (.test test result) first →
      Runs env scope (.stmt [] (if result then consequent else alternate)) second outcome →
      Runs env scope (.stmt labels (.ite test consequent alternate)) (first ++ second) outcome
  | block {scope : Scope} {inner : Option Scope} {body : List Stmt} {events : List Event}
      {outcome : Outcome} (labels : List Name) :
      Runs env (inner.getD scope) (.stmts body) events outcome →
      Runs env scope (.stmt labels (.block inner body)) events outcome
  | labeled {scope : Scope} {body : Stmt} {events : List Event} {outcome : Outcome}
      (labels : List Name) (label : Name) : outcome ≠ .continued (some label) →
      Runs env scope (.stmt (label :: labels) body) events outcome →
      Runs env scope (.stmt labels (.labeled label body)) events (outcome.atLabel label)
  | «break» {scope : Scope} (labels : List Name) (label : Option Name) :
      Runs env scope (.stmt labels (.break label)) [] (.broke label)
  | «continue» {scope : Scope} (labels : List Name) (label : Option Name) :
      Runs env scope (.stmt labels (.continue label)) [] (.continued label)
  | «while» {scope : Scope} {test : Expr} {body : Stmt} {labels : List Name}
      {events : List Event} {outcome : Outcome} :
      Runs env scope (.loop labels test body) events outcome →
      Runs env scope (.stmt labels (.while test body)) events outcome
  | loopExit {scope : Scope} {test : Expr} {body : Stmt} {events : List Event}
      (labels : List Name) : Evaluates env scope (.test test false) events →
      Runs env scope (.loop labels test body) events .normal
  | loopPass {scope : Scope} {test : Expr} {body : Stmt} {labels : List Name}
      {first second third : List Event} {passed outcome : Outcome} :
      Evaluates env scope (.test test true) first →
      Runs env scope (.stmt [] body) second passed → passed.goesOn labels = true →
      Runs env scope (.loop labels test body) third outcome →
      Runs env scope (.loop labels test body) (first ++ (second ++ third)) outcome
  | loopLeave {scope : Scope} {test : Expr} {body : Stmt} {labels : List Name}
      {first second : List Event} {left : Outcome} :
      Evaluates env scope (.test test true) first →
      Runs env scope (.stmt [] body) second left → left.goesOn labels = false →
      Runs env scope (.loop labels test body) (first ++ second) left.atBreakable
  | switchMatch {scope : Scope} {inner : Option Scope} {discriminant : Expr}
      {skipped rest : List Clause} {clause : Clause} {first tests second : List Event}
      {outcome : Outcome} (labels : List Name) :
      Evaluates env scope (.value discriminant) first →
      Writes (assignedTests (inner.getD scope) (skipped ++ clause :: rest)) tests →
      Runs env (inner.getD scope) (.clauses (clause :: rest)) second outcome →
      Runs env scope (.stmt labels (.switch inner discriminant (skipped ++ clause :: rest)))
        (first ++ (tests ++ (entryEvents env (memberDiscriminant scope discriminant)
          (caseLabels env (skipped ++ clause :: rest)) clause ++ second)))
        outcome.atBreakable
  -- nothing matched; no guard is recognized in that
  | switchNone {scope : Scope} {inner : Option Scope} {discriminant : Expr}
      {clauses : List Clause} {first tests : List Event} (labels : List Name) :
      hasDefault clauses = false → Evaluates env scope (.value discriminant) first →
      Writes (assignedTests (inner.getD scope) clauses) tests →
      Runs env scope (.stmt labels (.switch inner discriminant clauses)) (first ++ tests) .normal
  | clausesNil {scope : Scope} : Runs env scope (.clauses []) [] .normal
  | clausesNext {scope : Scope} {clause : Clause} {rest : List Clause}
      {first second : List Event} {outcome : Outcome} :
      Runs env scope (.stmts clause.consequent) first .normal →
      Runs env scope (.clauses rest) second outcome →
      Runs env scope (.clauses (clause :: rest)) (first ++ second) outcome
  | clausesStop {scope : Scope} {clause : Clause} {rest : List Clause} {events : List Event}
      {outcome : Outcome} : Runs env scope (.stmts clause.consequent) events outcome →
      outcome ≠ .normal → Runs env scope (.clauses (clause :: rest)) events outcome
  | unbuilt {scope : Scope} {form : UnbuiltForm} {inner : Option Scope} {names : List Name}
      {parts : List Expr} {bodies : List Stmt} {events : List Event} {outcome : Outcome}
      (labels : List Name) :
      Writes (assignedStmt scope (.unbuilt form inner names parts bodies)) events →
      outcome = .normal ∨ outcome = .exited ∨
        outcome ∈ (Stmt.unbuilt form inner names parts bodies).jumps →
      Runs env scope (.stmt labels (.unbuilt form inner names parts bodies)) events outcome
  | nil {scope : Scope} : Runs env scope (.stmts []) [] .normal
  | cons {scope : Scope} {stmt : Stmt} {rest : List Stmt} {first second : List Event}
      {outcome : Outcome} : Runs env scope (.stmt [] stmt) first .normal →
      Runs env scope (.stmts rest) second outcome →
      Runs env scope (.stmts (stmt :: rest)) (first ++ second) outcome
  | stop {scope : Scope} {stmt : Stmt} {rest : List Stmt} {events : List Event}
      {outcome : Outcome} : Runs env scope (.stmt [] stmt) events outcome → outcome ≠ .normal →
      Runs env scope (.stmts (stmt :: rest)) events outcome

end Typokat.Check
