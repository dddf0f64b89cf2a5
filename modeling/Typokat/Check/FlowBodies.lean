import Typokat.Check.FlowRuns

/-!
# Function Bodies and Their Flow Graphs

For bodies without declarations and without the forms that the builder skips, the graph has
a path for every execution, with exactly its assignments and guard outcomes, to the node
recorded for each reference.

## Main Results

- `records_stmts` : each identifier is recorded at most once
- `Runs.keeps` : executions of plain bodies keep to what the builder sees
- `executions_follow_paths` : the flow graph has a path for every execution
-/

namespace Typokat.Check

open Types Builder List Bool

/-! ## §1 Recorded references -/

mutual

/-- The identifiers that are read in an expression, by their places. -/
def spansExpr : Expr → List Span
  | .identifier span _ => [span]
  | .paren inner => spansExpr inner
  | .unary _ argument => spansExpr argument
  | .binary _ left right => spansExpr left ++ spansExpr right
  | .logical _ left right => spansExpr left ++ spansExpr right
  | .conditional test consequent alternate =>
    spansExpr test ++ (spansExpr consequent ++ spansExpr alternate)
  | .assignment _ _ right => spansExpr right
  | .staticMember object _ _ => spansExpr object
  | .operands _ parts => spansExprs parts
  | .function _ _ body => spansStmts body
  | .arrow _ _ body => spansExpr body
  | .initializer _ value => spansExpr value
  | _ => []

def spansExprs : List Expr → List Span
  | [] => []
  | expr :: rest => spansExpr expr ++ spansExprs rest

def spansStmt : Stmt → List Span
  | .declaration _ _ init => spansExpr init
  | .function _ _ _ body => spansStmts body
  | .class _ elements => spansExprs elements
  | .expression expr => spansExpr expr
  | .return argument => spansExprs argument
  | .throw argument => spansExpr argument
  | .ite test consequent alternate =>
    spansExpr test ++ (spansStmt consequent ++ spansStmt alternate)
  | .block _ body => spansStmts body
  | .switch _ discriminant clauses => spansExpr discriminant ++ spansClauses clauses
  | .while test body => spansExpr test ++ spansStmt body
  | .labeled _ body => spansStmt body
  | _ => []

def spansStmts : List Stmt → List Span
  | [] => []
  | stmt :: rest => spansStmt stmt ++ spansStmts rest

def spansClauses : List Clause → List Span
  | [] => []
  | .case _ consequent :: rest => spansStmts consequent ++ spansClauses rest
  | .default consequent :: rest => spansStmts consequent ++ spansClauses rest

end

/-- The references recorded between two points belong to these places, each at most once. -/
def Records (spans : List Span) (b b' : Builder) : Prop :=
  ∃ recorded, b'.references = recorded ++ b.references ∧
    ((recorded.map Prod.fst).reverse).Sublist spans

section Records

variable {b b₁ b₂ : Builder} {spans spans' : List Span}

theorem records_none (h : b₁.references = b.references) : Records spans b b₁ :=
  ⟨[], h, nil_sublist _⟩

theorem Records.append (h : Records spans b b₁) (h' : Records spans' b₁ b₂) :
    Records (spans ++ spans') b b₂ := by
  obtain ⟨first, hfirst, hsub⟩ := h
  obtain ⟨second, hsecond, hsub'⟩ := h'
  refine ⟨second ++ first, by rw [hsecond, hfirst, append_assoc], ?_⟩
  rw [map_append, reverse_append]
  exact hsub.append hsub'

/-- Nothing is recorded at the end. -/
theorem Records.then (h : Records spans b b₁) (heq : b₂.references = b₁.references) :
    Records spans b b₂ := by
  obtain ⟨recorded, hrecorded, hsub⟩ := h
  exact ⟨recorded, heq.trans hrecorded, hsub⟩

/-- Nothing is recorded at the start. -/
theorem Records.after (h : Records spans b₁ b₂) (heq : b₁.references = b.references) :
    Records spans b b₂ := by
  obtain ⟨recorded, hrecorded, hsub⟩ := h
  exact ⟨recorded, heq ▸ hrecorded, hsub⟩

@[simp] theorem Builder.moveTo_references (node : FlowNodeId) :
    (b.moveTo node).references = b.references := rfl

@[simp] theorem Builder.flowJoin_references (antecedents : List FlowNodeId) :
    (b.flowJoin antecedents).2.references = b.references := by
  unfold flowJoin
  split <;> rfl

@[simp] theorem Builder.joinAt_references (antecedents : List FlowNodeId) :
    (b.joinAt antecedents).references = b.references :=
  flowJoin_references antecedents

@[simp] theorem Builder.flowCondition_references (antecedent : FlowNodeId) (fact : Option GuardFact)
    (result : Bool) :
    (b.flowCondition antecedent fact result).2.references = b.references := by
  unfold flowCondition
  split
  · rfl
  · split <;> rfl

@[simp] theorem Builder.addBackEdge_references (label edge : FlowNodeId) :
    (b.addBackEdge label edge).references = b.references := by
  unfold addBackEdge
  split <;> rfl

@[simp] theorem Builder.pushBreak_references (cursor : FlowNodeId) :
    (b.pushBreak cursor).references = b.references := by
  unfold pushBreak
  split <;> rfl

theorem references_switchCaseEntry (env : FlowEnv) (pre : FlowNodeId)
    (discriminant : Option (SymbolId × Name × Occurrence)) (labels : List TypeId)
    (clause : Clause) :
    (switchCaseEntry env pre discriminant labels clause b).2.references = b.references := by
  have hchain : ∀ (symbol : SymbolId) (property : Name) (occurrence : Occurrence)
      (labels : List TypeId) (entry : FlowNodeId × Builder),
      (labels.foldl (fun entry literal => entry.2.newFlowFor
        (.condition symbol (.discriminant property literal) false entry.1) occurrence)
        entry).2.references = entry.2.references := by
    intro symbol property occurrence labels
    induction labels with
    | nil => exact fun _ => rfl
    | cons literal labels ih => exact fun entry => ih _
  unfold switchCaseEntry
  split
  · rfl
  split
  · rfl
  split
  · split <;> rfl
  · exact hchain _ _ _ _ _

@[simp] theorem references_enterClause (fellThrough : Option FlowNodeId) (direct : FlowNodeId) :
    (enterClause fellThrough direct b).references = b.references := by
  cases fellThrough with
  | none => rfl
  | some prevEnd => exact joinAt_references _

theorem references_clauseStart (env : FlowEnv) (pre : FlowNodeId)
    (discriminant : Option (SymbolId × Name × Occurrence)) (labels : List TypeId)
    (fellThrough : Option FlowNodeId) (clause : Clause) (b : Builder) :
    (enterClause fellThrough (switchCaseEntry env pre discriminant labels clause b).1
      (switchCaseEntry env pre discriminant labels clause b).2).references = b.references :=
  (references_enterClause _ _).trans (references_switchCaseEntry env pre discriminant labels clause)

theorem references_resetIdentifier (scope : Scope) (span : Span) (name : Name) :
    (resetIdentifier scope span name b).references = b.references := by
  unfold resetIdentifier
  split <;> rfl

end Records

theorem references_resetPatternTargets (scope : Scope) (target : Expr) (b : Builder) :
    (resetPatternTargets scope target b).references = b.references := by
  refine @resetPatternTargets.induct scope
    (fun target b => (resetPatternTargets scope target b).references = b.references)
    (fun targets b => (resetAllTargets scope targets b).references = b.references)
    ?_ ?_ ?_ ?_ ?_ ?_ ?_ target b
  · intro span name b
    rw [resetPatternTargets]
    exact references_resetIdentifier scope span name
  · intro parts b ih
    rwa [resetPatternTargets]
  · intro parts b ih
    rwa [resetPatternTargets]
  · intro target right b ih
    rwa [resetPatternTargets]
  · intros
    simp [resetPatternTargets]
  · intro b
    rfl
  · intro target rest b ih ihrest
    rw [resetAllTargets]
    exact ihrest.trans ih

theorem references_assignTarget (env : FlowEnv) (scope : Scope) (op : AssignmentOperator)
    (target right : Expr) (b : Builder) :
    (assignTarget env scope op target right b).references = b.references := by
  unfold assignTarget
  split
  · rfl
  split
  · split <;> rfl
  · exact references_resetPatternTargets scope target b

/-- What both modes of an expression record. -/
structure RecordsModes (spans : List Span) (modes : Modes) : Prop where
  value : ∀ b : Builder, Records spans b (modes.value b)
  condition : ∀ b : Builder, Records spans b (modes.condition b).2

theorem recordsModes_leaf {env : FlowEnv} {scope : Scope} {expr : Expr} {spans : List Span}
    {value : Builder → Builder} (h : ∀ b : Builder, Records spans b (value b)) :
    RecordsModes spans (.leaf env scope expr value) :=
  ⟨h, fun b => (h b).then (by simp [Modes.leaf])⟩

section Logical

variable {left right : Modes} {spans spans' : List Span} (hleft : RecordsModes spans left)
  (hright : RecordsModes spans' right) (op : LogicalOperator)
include hleft hright op

theorem records_conditionLogical (b : Builder) :
    Records (spans ++ spans') b (conditionLogical op left right b).2 := by
  cases op with
  | and =>
    exact ((hleft.condition b).append ((hright.condition _).after (by rfl))).then
      (flowJoin_references _)
  | or =>
    exact ((hleft.condition b).append ((hright.condition _).after (by rfl))).then
      (flowJoin_references _)
  | coalesce =>
    exact ((hleft.value b).append (hright.value _)).then (flowJoin_references _)

theorem recordsModes_logical :
    RecordsModes (spans ++ spans') ⟨valueLogical op left right, conditionLogical op left right⟩ :=
  ⟨fun b => (records_conditionLogical hleft hright op b).then (joinAt_references _),
    records_conditionLogical hleft hright op⟩

end Logical

theorem records_buildFlowIf {test : Modes} {consequent alternate : Builder → Builder}
    {spans spans' spans'' : List Span} (htest : RecordsModes spans test)
    (hconsequent : ∀ b, Records spans' b (consequent b))
    (halternate : ∀ b, Records spans'' b (alternate b)) (b : Builder) :
    Records (spans ++ (spans' ++ spans'')) b (buildFlowIf test consequent alternate b) := by
  have h : Records spans' (test.condition b).2 _ :=
    hconsequent ((test.condition b).2.moveTo (test.condition b).1.1)
  have h' : Records spans'' (consequent ((test.condition b).2.moveTo (test.condition b).1.1)) _ :=
    halternate (moveTo (test.condition b).1.2 _)
  exact ((htest.condition b).append (h.append h')).then (joinAt_references _)

theorem records_buildFlowWhile {test : Modes} {body : Builder → Builder} {spans spans' : List Span}
    (htest : RecordsModes spans test) (hbody : ∀ b, Records spans' b (body b)) (b : Builder) :
    Records (spans ++ spans') b (buildFlowWhile test body b) := by
  by_cases hne : b.cursor = .unreachable
  · rw [buildFlowWhile, if_pos hne]
    exact records_none rfl
  · have h : Records spans b _ := htest.condition b.openLoop
    have h' : Records spans' (test.condition b.openLoop).2 _ := hbody (b.loopBody test)
    rw [buildFlowWhile_eq hne]
    refine (h.append h').then ?_
    rw [joinAt_references]
    exact addBackEdge_references _ _

theorem records_boundary {build : Builder → Builder} {spans : List Span}
    (h : ∀ b, Records spans b (build b)) (b : Builder) : Records spans b (b.boundary build) :=
  ((h b.fresh).after (by rfl)).then rfl

mutual

theorem recordsModes_build {env : FlowEnv} {scope : Scope} :
    ∀ expr : Expr, RecordsModes (spansExpr expr) (buildModes env scope expr)
  | .identifier span name => by
    rw [buildModes]
    exact recordsModes_leaf (fun b => ⟨[(span, b.cursor)], rfl, by simp [spansExpr]⟩)
  | .paren inner => by
    rw [buildModes]
    exact recordsModes_build inner
  | .logical op left right => by
    rw [buildModes]
    exact recordsModes_logical (recordsModes_build left)
      (recordsModes_build right) op
  | .conditional test consequent alternate => by
    rw [buildModes]
    exact recordsModes_leaf (records_buildFlowIf (recordsModes_build test)
      (recordsModes_build consequent).value (recordsModes_build alternate).value)
  | .assignment op target right => by
    rw [buildModes]
    exact recordsModes_leaf (fun b =>
      ((recordsModes_build right).value b).then
        (references_assignTarget env scope op target right _))
  | .unary .logicalNot argument => by
    rw [buildModes]
    exact ⟨(recordsModes_build argument).value,
      (recordsModes_build argument).condition⟩
  | .unary .typeof argument => by
    rw [buildModes]
    · exact recordsModes_leaf (recordsModes_build argument).value
    · simp
  | .unary .other argument => by
    rw [buildModes]
    · exact recordsModes_leaf (recordsModes_build argument).value
    · simp
  | .binary op left right => by
    rw [buildModes]
    exact recordsModes_leaf (fun b => ((recordsModes_build left).value b).append
      ((recordsModes_build right).value _))
  | .staticMember object property optional => by
    rw [buildModes]
    exact recordsModes_leaf (recordsModes_build object).value
  | .operands form parts => by
    rw [buildModes]
    exact recordsModes_leaf (records_exprs parts)
  | .function inner params body => by
    rw [buildModes]
    exact recordsModes_leaf
      (records_boundary (records_stmts body))
  | .arrow inner params body => by
    rw [buildModes]
    exact recordsModes_leaf
      (records_boundary (recordsModes_build body).value)
  | .initializer isStatic value => by
    rw [buildModes]
    exact recordsModes_leaf
      (records_boundary (recordsModes_build value).value)
  | .literal _ | .null | .update _ | .unbuilt _ => recordsModes_leaf (fun _ => records_none rfl)

theorem records_exprs {env : FlowEnv} {scope : Scope} :
    ∀ (exprs : List Expr) (b : Builder), Records (spansExprs exprs) b (buildExprs env scope exprs b)
  | [], _ => records_none rfl
  | expr :: rest, b => by
    rw [buildExprs]
    exact ((recordsModes_build expr).value b).append (records_exprs rest _)

theorem records_stmt {env : FlowEnv} {scope : Scope} :
    ∀ (stmt : Stmt) (b : Builder), Records (spansStmt stmt) b (buildStmt env scope stmt b)
  | .declaration _ _ init, b => by
    rw [buildStmt]
    exact (recordsModes_build init).value b
  | .function _ inner _ body, b => by
    rw [buildStmt]
    exact records_boundary (records_stmts body) b
  | .class _ elements, b => by
    rw [buildStmt]
    exact records_exprs elements b
  | .expression expr, b => by
    rw [buildStmt]
    exact (recordsModes_build expr).value b
  | .return argument, b => by
    rw [buildStmt]
    exact (records_exprs argument b).then rfl
  | .throw argument, b => by
    rw [buildStmt]
    exact ((recordsModes_build argument).value b).then rfl
  | .ite test consequent alternate, b => by
    rw [buildStmt]
    exact records_buildFlowIf (recordsModes_build test)
      (records_stmt consequent) (records_stmt alternate) b
  | .block inner body, b => by
    rw [buildStmt]
    exact records_stmts body b
  | .switch _ discriminant clauses, b => by
    rw [buildStmt]
    exact (((recordsModes_build discriminant).value b).append
      ((records_clauses _ _ _ clauses none _).after (by rfl))).then
      (joinAt_references _)
  | .while test body, b => by
    rw [buildStmt]
    exact records_buildFlowWhile (recordsModes_build test) (records_stmt body) b
  | .labeled label body, b => by
    rw [buildStmt]
    exact ((records_stmt body _).after (by rfl)).then (joinAt_references _)
  | .break label, b => by
    rw [buildStmt]
    cases label with
    | none => exact records_none (pushBreak_references _)
    | some name => exact records_none rfl
  | .continue label, b => by
    rw [buildStmt]
    refine records_none ?_
    unfold buildFlowContinue
    dsimp only
    rw [moveTo_references]
    split
    · exact addBackEdge_references _ _
    · rfl
  | .empty, _ | .variable _ _, _ | .unbuilt _ _ _ _ _, _ => records_none rfl

/-- **Each identifier is recorded at most once.** -/
theorem records_stmts {env : FlowEnv} {scope : Scope} :
    ∀ (stmts : List Stmt) (b : Builder), Records (spansStmts stmts) b (buildStmts env scope stmts b)
  | [], _ => records_none rfl
  | stmt :: rest, b => by
    rw [buildStmts]
    exact (records_stmt stmt b).append (records_stmts rest _)

theorem records_clauses {env : FlowEnv} {scope : Scope} (pre : FlowNodeId)
    (discriminant : Option (SymbolId × Name × Occurrence)) (labels : List TypeId) :
    ∀ (clauses : List Clause) (fellThrough : Option FlowNodeId) (b : Builder),
      Records (spansClauses clauses) b
        (buildClauses env scope pre discriminant labels clauses fellThrough b)
  | [], _, _ => records_none rfl
  | .case test consequent :: rest, fellThrough, b => by
    have henter := references_clauseStart env pre discriminant labels fellThrough
      (.case test consequent) b
    rw [buildClauses_cons]
    exact ((records_stmts consequent _).after henter).append
      (records_clauses pre discriminant labels rest _ _)
  | .default consequent :: rest, fellThrough, b => by
    have henter := references_clauseStart env pre discriminant labels fellThrough
      (.default consequent) b
    rw [buildClauses_cons]
    exact ((records_stmts consequent _).after henter).append
      (records_clauses pre discriminant labels rest _ _)

end

/-- With distinct places the recorded node is the one that is looked up. -/
theorem Records.referenceFlow {spans : List Span} {b b' : Builder} (h : Records spans b b')
    (hnodup : (spans ++ b.references.map Prod.fst).Nodup) {span : Span} {node : FlowNodeId}
    (hmem : (span, node) ∈ b'.references) : b'.referenceFlow span = some node := by
  obtain ⟨recorded, hrecorded, hsub⟩ := h
  have hkeys : (b'.references.map Prod.fst).Nodup := by
    rw [hrecorded, map_append]
    have hperm : (recorded.map Prod.fst ++ b.references.map Prod.fst).Perm
        ((recorded.map Prod.fst).reverse ++ b.references.map Prod.fst) :=
      (reverse_perm _).symm.append_right _
    exact hperm.nodup_iff.mpr (hnodup.sublist (hsub.append_right _))
  obtain ⟨newer, older, hsplit⟩ := append_of_mem hmem
  refine lookup_eq_some_iff.mpr ⟨newer, older, hsplit, ?_⟩
  intro entry hentry
  rw [hsplit, map_append, map_cons] at hkeys
  have hdisjoint := (nodup_append.mp hkeys).2.2 entry.1
    (mem_map.mpr ⟨entry, hentry, rfl⟩) span mem_cons_self
  simpa using Ne.symm hdisjoint

/-! ## §2 Plain bodies -/

mutual

/-- Identifiers, literals, calls and other operands, `!` and the other operators, `&&`, `||`,
`??`, ternaries, sequences, and assignments that are not logical, to patterns without
defaults.  Functions are values. -/
def Expr.isPlain : Expr → Bool
  | .identifier _ _ => true
  | .literal _ => true
  | .null => true
  | .paren inner => inner.isPlain
  | .unary _ argument => argument.isPlain
  | .binary _ left right => left.isPlain && right.isPlain
  | .logical _ left right => left.isPlain && right.isPlain
  | .conditional test consequent alternate =>
    test.isPlain && (consequent.isPlain && alternate.isPlain)
  | .assignment op target right => op != .logical && (target.isPlainTarget && right.isPlain)
  | .staticMember object _ _ => object.isPlain
  | .operands _ parts => arePlain parts
  | .function _ _ _ => true
  | .arrow _ _ _ => true
  | _ => false

def arePlain : List Expr → Bool
  | [] => true
  | expr :: rest => expr.isPlain && arePlain rest

/-- Identifiers and patterns of them. -/
def Expr.isPlainTarget : Expr → Bool
  | .identifier _ _ => true
  | .operands .array parts => arePlainTargets parts
  | .operands .object parts => arePlainTargets parts
  | _ => false

def arePlainTargets : List Expr → Bool
  | [] => true
  | target :: rest => target.isPlainTarget && arePlainTargets rest

end

/-- The tests of plain clauses. -/
def Expr.isLiteral : Expr → Bool
  | .literal _ => true
  | .null => true
  | _ => false

mutual

/-- Blocks, expression statements, `if`, `while`, labels, `break`, `continue`, `return`,
`throw`, and `switch` with literal tests. -/
def Stmt.isPlain : Stmt → Bool
  | .empty => true
  | .expression expr => expr.isPlain
  | .return argument => arePlain argument
  | .throw argument => argument.isPlain
  | .ite test consequent alternate => test.isPlain && (consequent.isPlain && alternate.isPlain)
  | .block _ body => arePlainStmts body
  | .switch _ discriminant clauses => discriminant.isPlain && arePlainClauses clauses
  | .while test body => test.isPlain && body.isPlain
  | .labeled _ body => body.isPlain
  | .break _ => true
  | .continue _ => true
  | _ => false

def arePlainStmts : List Stmt → Bool
  | [] => true
  | stmt :: rest => stmt.isPlain && arePlainStmts rest

def arePlainClauses : List Clause → Bool
  | [] => true
  | .case test consequent :: rest =>
    test.isLiteral && (arePlainStmts consequent && arePlainClauses rest)
  | .default consequent :: rest => arePlainStmts consequent && arePlainClauses rest

end

mutual

/-- The binder keeps expressions plain. -/
theorem isPlain_bindExpr (scope : Scope) : ∀ (expr : Expr) (next : Nat),
    (bindExpr scope expr next).1.isPlain = expr.isPlain
  | .identifier _ _, _ | .literal _, _ | .null, _ | .function _ _ _, _ | .arrow _ _ _, _
  | .initializer _ _, _ | .update _, _ | .unbuilt _, _ | .unary _ _, _ | .binary _ _ _, _
  | .logical _ _ _, _ | .conditional _ _ _, _ => rfl
  | .paren inner, next => isPlain_bindExpr scope inner next
  | .staticMember object _ _, next => isPlain_bindExpr scope object next
  | .operands form parts, next => by
    rw [bindExpr]
    split
    · exact arePlain_bindExprs scope parts next
    · rfl
  | .assignment _ _ right, next =>
    congrArg₂ _ rfl (congrArg₂ _ rfl (isPlain_bindExpr scope right next))

theorem arePlain_bindExprs (scope : Scope) : ∀ (exprs : List Expr) (next : Nat),
    arePlain (bindExprs scope exprs next).1 = arePlain exprs
  | [], _ => rfl
  | expr :: rest, next =>
    congrArg₂ _ (isPlain_bindExpr scope expr next) (arePlain_bindExprs scope rest _)

end

theorem isLiteral_bindExpr (scope : Scope) (next : Nat) {test : Expr} (h : test.isLiteral = true) :
    (bindExpr scope test next).1.isLiteral = true := by
  cases test with
  | literal value => rfl
  | null => rfl
  | _ => cases h

mutual

/-- Plain statements declare nothing. -/
theorem lexicalNames_of_plain : ∀ stmt : Stmt, stmt.isPlain = true → stmt.lexicalNames = []
  | .empty, _ | .expression _, _ | .return _, _ | .throw _, _ | .block _ _, _ | .switch _ _ _, _
  | .break _, _ | .continue _, _ => rfl
  | .labeled _ body, h => lexicalNames_of_plain body h
  | .while _ body, h => by
    rw [Stmt.isPlain, and_eq_true] at h
    exact lexicalNames_of_plain body h.2
  | .ite _ consequent alternate, h => by
    rw [Stmt.isPlain, and_eq_true, and_eq_true] at h
    rw [Stmt.lexicalNames, lexicalNames_of_plain consequent h.2.1,
      lexicalNames_of_plain alternate h.2.2, append_nil]

theorem lexicalNamesList_of_plain :
    ∀ stmts : List Stmt, arePlainStmts stmts = true → lexicalNamesList stmts = []
  | [], _ => rfl
  | stmt :: rest, h => by
    rw [arePlainStmts, and_eq_true] at h
    rw [lexicalNamesList, lexicalNames_of_plain stmt h.1, lexicalNamesList_of_plain rest h.2,
      append_nil]

end

theorem arePlain_clause {clause : Clause} {rest : List Clause}
    (h : arePlainClauses (clause :: rest) = true) :
    arePlainStmts clause.consequent = true ∧ arePlainClauses rest = true := by
  cases clause with
  | case test consequent =>
    rw [arePlainClauses, and_eq_true, and_eq_true] at h
    exact h.2
  | «default» consequent =>
    rw [arePlainClauses, and_eq_true] at h
    exact h

theorem lexicalNamesClauses_of_plain (clauses : List Clause) (h : arePlainClauses clauses = true) :
    lexicalNamesClauses clauses = [] := by
  induction clauses with
  | nil => rfl
  | cons clause rest ih =>
    have hclause := arePlain_clause h
    unfold lexicalNamesClauses at ih ⊢
    rw [flatMap_cons, lexicalNamesList_of_plain _ hclause.1, ih hclause.2, append_nil]

mutual

/-- The binder keeps statements plain. -/
theorem isPlain_bindStmt : ∀ (stmt : Stmt) (scope : Scope) (next : Nat), stmt.isPlain = true →
    (bindStmt scope stmt next).1.isPlain = true
  | .empty, _, _, _ => rfl
  | .break _, _, _, _ => rfl
  | .continue _, _, _, _ => rfl
  | .throw _, _, _, h => h
  | .expression expr, scope, next, h => (isPlain_bindExpr scope expr next).trans h
  | .return argument, scope, next, h => (arePlain_bindExprs scope argument next).trans h
  | .labeled _ body, scope, next, h => isPlain_bindStmt body scope next h
  | .block _ body, _, next, h => arePlainStmts_bindStmts body _ (next + 1) h
  | .ite test consequent alternate, scope, next, h => by
    rw [Stmt.isPlain, and_eq_true, and_eq_true] at h
    rw [bindStmt, Stmt.isPlain, and_eq_true, and_eq_true]
    exact ⟨(isPlain_bindExpr scope test next).trans h.1, isPlain_bindStmt consequent scope _ h.2.1,
      isPlain_bindStmt alternate scope _ h.2.2⟩
  | .while test body, scope, next, h => by
    rw [Stmt.isPlain, and_eq_true] at h
    rw [bindStmt, Stmt.isPlain, and_eq_true]
    exact ⟨(isPlain_bindExpr scope test next).trans h.1, isPlain_bindStmt body scope _ h.2⟩
  | .switch _ discriminant clauses, scope, next, h => by
    rw [Stmt.isPlain, and_eq_true] at h
    rw [bindStmt, Stmt.isPlain, and_eq_true]
    exact ⟨(isPlain_bindExpr scope discriminant next).trans h.1,
      arePlainClauses_bindClauses clauses _ _ h.2⟩

theorem arePlainStmts_bindStmts : ∀ (stmts : List Stmt) (scope : Scope) (next : Nat),
    arePlainStmts stmts = true → arePlainStmts (bindStmts scope stmts next).1 = true
  | [], _, _, _ => rfl
  | stmt :: rest, scope, next, h => by
    rw [arePlainStmts, and_eq_true] at h
    rw [bindStmts, arePlainStmts, and_eq_true]
    exact ⟨isPlain_bindStmt stmt scope next h.1, arePlainStmts_bindStmts rest scope _ h.2⟩

theorem arePlainClauses_bindClauses : ∀ (clauses : List Clause) (scope : Scope) (next : Nat),
    arePlainClauses clauses = true → arePlainClauses (bindClauses scope clauses next).1 = true
  | [], _, _, _ => rfl
  | .case test consequent :: rest, scope, next, h => by
    rw [arePlainClauses, and_eq_true, and_eq_true] at h
    rw [bindClauses, arePlainClauses, and_eq_true, and_eq_true]
    exact ⟨isLiteral_bindExpr scope next h.1, arePlainStmts_bindStmts consequent scope _ h.2.1,
      arePlainClauses_bindClauses rest scope _ h.2.2⟩
  | .default consequent :: rest, scope, next, h => by
    rw [arePlainClauses, and_eq_true] at h
    rw [bindClauses, arePlainClauses, and_eq_true]
    exact ⟨arePlainStmts_bindStmts consequent scope _ h.1,
      arePlainClauses_bindClauses rest scope _ h.2⟩

end

mutual

theorem tracked_bindStmt (rel : SymbolId → Bool) :
    ∀ (stmt : Stmt) (scope : Scope) (next : Nat), stmt.isPlain = true →
      TrackedStmt rel scope (bindStmt scope stmt next).1
  | .empty, _, _, _ | .break _, _, _, _ | .continue _, _, _, _ | .expression _, _, _, _
  | .return _, _, _, _ | .throw _, _, _, _ => trivial
  | .labeled _ body, scope, next, h => tracked_bindStmt rel body scope next h
  | .ite test consequent alternate, scope, next, h => by
    rw [Stmt.isPlain, and_eq_true, and_eq_true] at h
    exact ⟨tracked_bindStmt rel consequent scope _ h.2.1,
      tracked_bindStmt rel alternate scope _ h.2.2⟩
  | .block _ body, scope, next, h =>
    tracked_bindStmts rel body (⟨next, lexicalNamesList body⟩ :: scope) (next + 1) h
  | .while test body, scope, next, h => by
    rw [Stmt.isPlain, and_eq_true] at h
    exact tracked_bindStmt rel body scope _ h.2
  | .switch _ discriminant clauses, scope, next, h => by
    rw [Stmt.isPlain, and_eq_true] at h
    refine ⟨⟨_, rfl, ?_⟩, tracked_bindClauses rel clauses _ _ h.2⟩
    intro symbol _
    rw [lexicalNamesClauses_of_plain clauses h.2]
    exact not_mem_nil

/-- **The jumps and scopes of plain bodies are tracked.** -/
theorem tracked_bindStmts (rel : SymbolId → Bool) :
    ∀ (stmts : List Stmt) (scope : Scope) (next : Nat), arePlainStmts stmts = true →
      TrackedStmts rel scope (bindStmts scope stmts next).1
  | [], _, _, _ => trivial
  | stmt :: rest, scope, next, h => by
    rw [arePlainStmts, and_eq_true] at h
    exact ⟨tracked_bindStmt rel stmt scope next h.1, tracked_bindStmts rel rest scope _ h.2⟩

theorem tracked_bindClauses (rel : SymbolId → Bool) :
    ∀ (clauses : List Clause) (scope : Scope) (next : Nat), arePlainClauses clauses = true →
      TrackedClauses rel scope (bindClauses scope clauses next).1
  | [], _, _, _ => trivial
  | .case test consequent :: rest, scope, next, h => by
    rw [arePlainClauses, and_eq_true, and_eq_true] at h
    exact ⟨tracked_bindStmts rel consequent scope _ h.2.1,
      tracked_bindClauses rel rest scope _ h.2.2⟩
  | .default consequent :: rest, scope, next, h => by
    rw [arePlainClauses, and_eq_true] at h
    exact ⟨tracked_bindStmts rel consequent scope _ h.1, tracked_bindClauses rel rest scope _ h.2⟩

end

/-- What is evaluated is plain. -/
def EvalTask.isPlain : EvalTask → Bool
  | .value expr => expr.isPlain
  | .values exprs => arePlain exprs
  | .test expr _ => expr.isPlain
  | .target pattern => pattern.isPlainTarget
  | .targets patterns => arePlainTargets patterns

/-- What is run is plain. -/
def RunTask.isPlain : RunTask → Bool
  | .stmt _ body => body.isPlain
  | .stmts bodies => arePlainStmts bodies
  | .loop _ test body => test.isPlain && body.isPlain
  | .clauses rest => arePlainClauses rest

section Keeping

variable {env : FlowEnv} {scope : Scope} {rel : SymbolId → Bool} {events : List Event}

/-- A target that is no pattern is not plain. -/
theorem isPattern_of_plain {target : Expr} (h : target.isPlainTarget = true) :
    target.isPattern = true := by
  unfold Expr.isPlainTarget at h
  split at h
  · rfl
  · rfl
  · rfl
  · cases h

/-- Evaluating plain expressions keeps to what the builder sees. -/
theorem Evaluates.keeps {task : EvalTask} (h : Evaluates env scope task events)
    (hplain : task.isPlain = true) : ∀ event ∈ events, event.diverges rel = false := by
  induction h with
  | identifier => simp [Event.diverges]
  | literal | null | function | arrow | nil | targetsNil => simp
  | paren _ ih | unary _ ih | logical _ ih | staticMember _ ih | operands _ ih | testParen _ ih
  | testNot _ ih | targetArray _ ih | targetObject _ ih => exact ih hplain
  | @binary op left right first second _ _ ih₁ ih₂ =>
    replace hplain : (left.isPlain && right.isPlain) = true := hplain
    rw [and_eq_true] at hplain
    exact forall_mem_append.mpr ⟨ih₁ hplain.1, ih₂ hplain.2⟩
  | @conditional test consequent alternate result first second _ _ ih₁ ih₂ =>
    replace hplain : (test.isPlain && (consequent.isPlain && alternate.isPlain)) = true := hplain
    rw [and_eq_true, and_eq_true] at hplain
    refine forall_mem_append.mpr ⟨ih₁ hplain.1, ih₂ ?_⟩
    cases result with
    | true => exact hplain.2.1
    | false => exact hplain.2.2
  | @assign op right events span name _ _ ih =>
    have hright : right.isPlain = true := by
      simp only [EvalTask.isPlain, Expr.isPlain, and_eq_true] at hplain
      exact hplain.2.2
    exact forall_mem_append.mpr ⟨ih hright, diverges_writeEvents name _⟩
  | @destructure op target right first second _ _ _ _ ih₁ ih₂ =>
    simp only [EvalTask.isPlain, Expr.isPlain, and_eq_true] at hplain
    exact forall_mem_append.mpr ⟨ih₁ hplain.2.2, ih₂ hplain.2.1⟩
  | logicalAssign | logicalSkip => simp [EvalTask.isPlain, Expr.isPlain] at hplain
  | initializer | update | unbuilt => simp [EvalTask.isPlain, Expr.isPlain] at hplain
  | cons _ _ ih₁ ih₂ =>
    simp only [EvalTask.isPlain, arePlain, and_eq_true] at hplain
    exact forall_mem_append.mpr ⟨ih₁ hplain.1, ih₂ hplain.2⟩
  | andFalse _ ih | orTrue _ ih | coalesceLeft _ _ ih =>
    simp only [EvalTask.isPlain, Expr.isPlain, and_eq_true] at hplain
    exact ih hplain.1
  | andTrue _ _ ih₁ ih₂ | orFalse _ _ ih₁ ih₂ | coalesceRight _ _ _ ih₁ ih₂ =>
    simp only [EvalTask.isPlain, Expr.isPlain, and_eq_true] at hplain
    exact forall_mem_append.mpr ⟨ih₁ hplain.1, ih₂ hplain.2⟩
  | leaf result _ _ ih =>
    exact forall_mem_append.mpr ⟨ih hplain, diverges_guardEvents _ result⟩
  | targetIdentifier _ name => exact diverges_writeEvents name none
  | targetDefault => simp [EvalTask.isPlain, Expr.isPlainTarget] at hplain
  | targetOther hpattern =>
    rw [isPattern_of_plain hplain] at hpattern
    cases hpattern
  | targetsCons _ _ ih₁ ih₂ =>
    simp only [EvalTask.isPlain, arePlainTargets, and_eq_true] at hplain
    exact forall_mem_append.mpr ⟨ih₁ hplain.1, ih₂ hplain.2⟩

/-- The tests of plain clauses assign nothing. -/
theorem assignedTests_of_plain {clauses : List Clause} (h : arePlainClauses clauses = true) :
    assignedTests scope clauses = [] := by
  induction clauses with
  | nil => rfl
  | cons clause rest ih =>
    cases clause with
    | case test consequent =>
      rw [arePlainClauses, and_eq_true, and_eq_true] at h
      rw [assignedTests, flatMap_cons]
      refine append_eq_nil_iff.mpr ⟨?_, ih h.2.2⟩
      cases test with
      | literal value => rfl
      | null => rfl
      | _ => exact absurd h.1 (by simp [Expr.isLiteral])
    | «default» consequent =>
      rw [arePlainClauses, and_eq_true] at h
      exact ih h.2

theorem arePlainClauses_append {skipped rest : List Clause}
    (h : arePlainClauses (skipped ++ rest) = true) : arePlainClauses rest = true := by
  induction skipped with
  | nil => exact h
  | cons clause skipped ih => exact ih (arePlain_clause h).2

theorem keeps_of_writes {symbols : List SymbolId} (h : Writes symbols events) (hnil : symbols = []) :
    ∀ event ∈ events, event.diverges rel = false := by
  intro event hevent
  obtain ⟨symbol, hsymbol, -⟩ := h event hevent
  rw [hnil] at hsymbol
  cases hsymbol

/-- **Executions of plain bodies keep to what the builder sees.** -/
theorem Runs.keeps {task : RunTask} {outcome : Outcome} (h : Runs env scope task events outcome)
    (hplain : task.isPlain = true) : ∀ event ∈ events, event.diverges rel = false := by
  induction h with
  | empty | «break» | «continue» | clausesNil | nil => simp
  | «variable» | declaration | function | «class» | unbuilt =>
    simp [RunTask.isPlain, Stmt.isPlain] at hplain
  | expression _ h | «return» _ h | throw _ h => exact h.keeps hplain
  | block _ _ ih | labeled _ _ _ _ ih | «while» _ ih => exact ih hplain
  | @ite scope test consequent alternate result first second outcome labels h _ ih =>
    simp only [RunTask.isPlain, Stmt.isPlain, and_eq_true] at hplain
    refine forall_mem_append.mpr ⟨h.keeps hplain.1, ih ?_⟩
    cases result with
    | true => exact hplain.2.1
    | false => exact hplain.2.2
  | loopExit _ h =>
    simp only [RunTask.isPlain, and_eq_true] at hplain
    exact h.keeps hplain.1
  | loopPass h _ _ _ ih₁ ih₂ =>
    have hparts := hplain
    simp only [RunTask.isPlain, and_eq_true] at hparts
    exact forall_mem_append.mpr ⟨h.keeps hparts.1, forall_mem_append.mpr ⟨ih₁ hparts.2, ih₂ hplain⟩⟩
  | loopLeave h _ _ ih =>
    simp only [RunTask.isPlain, and_eq_true] at hplain
    exact forall_mem_append.mpr ⟨h.keeps hplain.1, ih hplain.2⟩
  | switchMatch _ h htests _ ih =>
    simp only [RunTask.isPlain, Stmt.isPlain, and_eq_true] at hplain
    refine forall_mem_append.mpr ⟨h.keeps hplain.1, forall_mem_append.mpr
      ⟨keeps_of_writes htests (assignedTests_of_plain hplain.2), forall_mem_append.mpr
        ⟨diverges_entryEvents _ _ _, ih (arePlainClauses_append hplain.2)⟩⟩⟩
  | switchNone _ _ h htests =>
    simp only [RunTask.isPlain, Stmt.isPlain, and_eq_true] at hplain
    exact forall_mem_append.mpr
      ⟨h.keeps hplain.1, keeps_of_writes htests (assignedTests_of_plain hplain.2)⟩
  | clausesNext _ _ ih₁ ih₂ =>
    obtain ⟨hclause, hrest⟩ := arePlain_clause hplain
    exact forall_mem_append.mpr ⟨ih₁ hclause, ih₂ hrest⟩
  | clausesStop _ _ ih => exact ih (arePlain_clause hplain).1
  | cons _ _ ih₁ ih₂ =>
    simp only [RunTask.isPlain, arePlainStmts, and_eq_true] at hplain
    exact forall_mem_append.mpr ⟨ih₁ hplain.1, ih₂ hplain.2⟩
  | stop _ _ ih =>
    simp only [RunTask.isPlain, arePlainStmts, and_eq_true] at hplain
    exact ih hplain.1

end Keeping

/-! ## §3 Executions of bodies -/

theorem filter_traceOf (nodes : List FlowNode) (entered : List FlowNodeId) :
    (traceOf nodes entered).filter (Event.about (fun _ => true)) = traceOf nodes entered := by
  rw [filter_eq_self]
  intro event hevent
  obtain ⟨node, -, hnode⟩ := mem_filterMap.mp hevent
  cases hrow : nodes[node]? with
  | none => simp [hrow] at hnode
  | some row =>
    rw [hrow, Option.bind_some] at hnode
    cases row <;> simp [FlowNode.event] at hnode <;> subst hnode <;> rfl

/-- **The flow graph has a path for every execution.**  For a plain body, built at `START`
in any state of the pre-pass, and every execution of it up to a reference: the graph has a
path from `START` to the node recorded for the reference with exactly the assignments and
guard outcomes of the execution, and still has it when the pre-pass goes on.  No node that
was built has an edge from `UNREACHABLE`. -/
theorem executions_follow_paths (env : FlowEnv) (scope : Scope) (raw : List Stmt) (next : Nat)
    (hplain : arePlainStmts raw = true) (b : Builder) (hb : b.Ranked)
    (hspans : (spansStmts (bindStmts scope raw next).1 ++ b.references.map Prod.fst).Nodup) :
    (∀ events outcome, Runs env scope (.stmts (bindStmts scope raw next).1) events outcome →
      ∀ before span after, events = before ++ .reference span :: after →
      ∀ nodes, NodesExtend (buildStmts env scope (bindStmts scope raw next).1 b.fresh).nodes nodes →
        ∃ node entered,
          (buildStmts env scope (bindStmts scope raw next).1 b.fresh).referenceFlow span = some node ∧
          Path nodes .start node entered ∧
          traceOf nodes entered = before.filter (Event.about (fun _ => true))) ∧
    ∀ (node : Nat) (row : FlowNode),
      (buildStmts env scope (bindStmts scope raw next).1 b.fresh).nodes[node]? = some row →
      FlowNodeId.unreachable ∉ row.antecedents := by
  have hfresh := ranked_fresh hb
  refine ⟨?_, ?_⟩
  · intro events outcome hruns before span after heq nodes hnodes
    have htracked := tracked_bindStmts (fun _ => true) raw scope next hplain
    have hsim := hruns.simulated scope (.refl _ scope) htracked b.fresh hfresh
      (show FlowNodeId.start ≠ .unreachable by decide) nodes _
      ⟨hnodes, fun _ h => h⟩
    obtain ⟨node, hnode, entered, hpath, htrace⟩ := hsim.references before span after heq
    have hkeeps : ∀ event ∈ events, event.diverges (fun _ => true) = false :=
      hruns.keeps (arePlainStmts_bindStmts raw scope next hplain)
    rw [heq, forall_mem_append] at hkeeps
    have hwhole := htrace.whole hkeeps.1
    rw [filter_traceOf] at hwhole
    exact ⟨node, entered, (records_stmts _ b.fresh).referenceFlow hspans hnode, hpath,
      hwhole⟩
  · intro node row hrow hmem
    exact ((grown_stmts _ b.fresh hfresh).ranked.rows node row hrow).reachable _ hmem rfl

/-- `if (x) { x = null; } x;` -/
def resetBody : List Stmt :=
  [.ite (.identifier 10 "x")
      (.block none [.expression (.assignment .assign (.identifier 20 "x") .null)]) .empty,
    .expression (.identifier 30 "x")]

/-- The execution through the branch. -/
theorem runs_resetBody : Runs exampleEnv exampleScope
    (.stmts (bindStmts exampleScope resetBody 1).1)
    [.reference 10, .guard ⟨0, "x"⟩ .truthy true, .assign ⟨0, "x"⟩ (some (.union {.other 5})),
      .reference 30] .normal := by
  have htest : Evaluates exampleEnv exampleScope (.test (.identifier 10 "x") true)
      [.reference 10, .guard ⟨0, "x"⟩ .truthy true] :=
    .leaf true rfl (.identifier 10 "x")
  have hassign : Evaluates exampleEnv (⟨1, []⟩ :: exampleScope)
      (.value (.assignment .assign (.identifier 20 "x") .null))
      [.assign ⟨0, "x"⟩ (some (.union {.other 5}))] :=
    .assign 20 "x" (by decide) .null
  have hblock : Runs exampleEnv exampleScope (.stmt [] (.block (some (⟨1, []⟩ :: exampleScope))
      [.expression (.assignment .assign (.identifier 20 "x") .null)]))
      [.assign ⟨0, "x"⟩ (some (.union {.other 5}))] .normal :=
    .block [] (.cons (.expression [] hassign) .nil)
  have hlast : Runs exampleEnv exampleScope (.stmts [.expression (.identifier 30 "x")])
      [.reference 30] .normal :=
    .cons (.expression [] (.identifier 30 "x")) .nil
  exact .cons (.ite [] htest hblock) hlast

/-- The path of that execution to the last reference. -/
theorem executions_follow_paths_reset :
    arePlainStmts resetBody = true ∧ Builder.initial.Ranked ∧ ∃ node entered,
      (buildStmts exampleEnv exampleScope (bindStmts exampleScope resetBody 1).1
        Builder.initial.fresh).referenceFlow 30 = some node ∧
      Path (buildStmts exampleEnv exampleScope (bindStmts exampleScope resetBody 1).1
        Builder.initial.fresh).nodes .start node entered ∧
      traceOf (buildStmts exampleEnv exampleScope (bindStmts exampleScope resetBody 1).1
        Builder.initial.fresh).nodes entered =
          [.guard ⟨0, "x"⟩ .truthy true, .assign ⟨0, "x"⟩ (some (.union {.other 5}))] :=
  ⟨by decide, ranked_initial,
    (executions_follow_paths exampleEnv exampleScope resetBody 1 (by decide) initial
      ranked_initial (by decide)).1 _ _ runs_resetBody
      [.reference 10, .guard ⟨0, "x"⟩ .truthy true,
        .assign ⟨0, "x"⟩ (some (.union {Member.other 5}))]
      30 [] rfl _ (.refl _)⟩

end Typokat.Check
