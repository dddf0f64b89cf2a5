import Typokat.Check.FlowGuards

/-!
# The Bindings That Flow Nodes Name (`checker/statements.rs`, `checker/narrowing.rs`)

The flow builder and the statement checker walk the same statements, each with a current
scope of its own.  They enter the scopes of blocks and functions alike; but the checker
checks the clauses of a `switch` in the scope of the `switch`, and the builder stays in the
scope around it.

So a node and the checker agree on the binding of an occurrence exactly if the name is not
declared directly in the clauses of a `switch` in which the occurrence directly stands, with no
block or function in between that has a scope of its own.  The binder gives no scope to a
function in an operand that it does not descend into, and there both walks stay where they are.

## Main Results

- `checkStmt` : the scopes in which the checker checks the occurrences of a statement
- `wellBound_bindStmts` : the scopes that the binder makes extend the scopes around them
- `marked_stmts` : the nodes that are built name bindings of the builder's scopes
- `nodes_name_bindings` : when a node names the binding that the checker sees
-/

namespace Typokat.Check

open Types Option List Bool

/-! ## §1 The checker's walk -/

/-- An occurrence, the scope in which the checker checks it, and (which the checker does not
keep) the scopes of the `switch` statements in whose clauses it directly stands. -/
structure Visit where
  occurrence : Occurrence
  scope : Scope
  direct : List ScopeFrame
  deriving DecidableEq

mutual

/-- `infer_expr`: where the occurrences in an expression are checked. -/
def checkExpr (direct : List ScopeFrame) (scope : Scope) : Expr → List Visit
  | .identifier span name => [⟨⟨span, name⟩, scope, direct⟩]
  | .paren inner => checkExpr direct scope inner
  | .unary _ argument => checkExpr direct scope argument
  | .binary _ left right => checkExpr direct scope left ++ checkExpr direct scope right
  | .logical _ left right => checkExpr direct scope left ++ checkExpr direct scope right
  | .conditional test consequent alternate =>
    checkExpr direct scope test ++ checkExpr direct scope consequent ++
      checkExpr direct scope alternate
  | .assignment _ target right => checkExpr direct scope target ++ checkExpr direct scope right
  | .staticMember object _ _ => checkExpr direct scope object
  | .operands _ parts => checkExprs direct scope parts
  | .function inner _ body =>
    checkStmts (inner.elim direct (fun _ => [])) (inner.getD scope) body
  | .arrow inner _ body => checkExpr (inner.elim direct (fun _ => [])) (inner.getD scope) body
  | .initializer _ value => checkExpr direct scope value
  | .update argument => checkExpr direct scope argument
  | .unbuilt parts => checkExprs direct scope parts
  | .literal _ => []
  | .null => []

def checkExprs (direct : List ScopeFrame) (scope : Scope) : List Expr → List Visit
  | [] => []
  | expr :: rest => checkExpr direct scope expr ++ checkExprs direct scope rest

/-- `check_stmt`.  A block, a function and the head of a loop have their own scope;
`check_switch` checks the clauses in the scope of the `switch`. -/
def checkStmt (direct : List ScopeFrame) (scope : Scope) : Stmt → List Visit
  | .declaration _ _ init => checkExpr direct scope init
  | .function _ inner _ body =>
    checkStmts (inner.elim direct (fun _ => [])) (inner.getD scope) body
  | .class _ elements => checkExprs direct scope elements
  | .expression expr => checkExpr direct scope expr
  | .return argument => checkExprs direct scope argument
  | .throw argument => checkExpr direct scope argument
  | .ite test consequent alternate =>
    checkExpr direct scope test ++ checkStmt direct scope consequent ++
      checkStmt direct scope alternate
  | .block inner body => checkStmts (inner.elim direct (fun _ => [])) (inner.getD scope) body
  | .switch inner discriminant clauses =>
    checkExpr direct scope discriminant ++
      checkClauses ((inner.getD []).take 1 ++ direct) (inner.getD scope) clauses
  | .while test body => checkExpr direct scope test ++ checkStmt direct scope body
  | .labeled _ body => checkStmt direct scope body
  | .unbuilt _ inner _ parts bodies =>
    checkExprs (inner.elim direct (fun _ => [])) (inner.getD scope) parts ++
      checkStmts (inner.elim direct (fun _ => [])) (inner.getD scope) bodies
  | .empty => []
  | .variable _ _ => []
  | .break _ => []
  | .continue _ => []

def checkStmts (direct : List ScopeFrame) (scope : Scope) : List Stmt → List Visit
  | [] => []
  | stmt :: rest => checkStmt direct scope stmt ++ checkStmts direct scope rest

def checkClauses (direct : List ScopeFrame) (scope : Scope) : List Clause → List Visit
  | [] => []
  | .case test consequent :: rest =>
    checkExpr direct scope test ++ checkStmts direct scope consequent ++
      checkClauses direct scope rest
  | .default consequent :: rest =>
    checkStmts direct scope consequent ++ checkClauses direct scope rest

end

/-! ## §2 The scopes of the binder -/

/-- An entry of the binder is a new scope inside the current one. -/
def Entered (scope : Scope) (inner : Option Scope) : Prop :=
  ∀ found, inner = some found →
    ∃ frame : ScopeFrame, found = frame :: scope ∧ frame.id ∉ scope.map ScopeFrame.id

mutual

/-- The scopes in an expression extend the scopes around them. -/
def WellBoundExpr (scope : Scope) : Expr → Prop
  | .paren inner => WellBoundExpr scope inner
  | .unary _ argument => WellBoundExpr scope argument
  | .binary _ left right => WellBoundExpr scope left ∧ WellBoundExpr scope right
  | .logical _ left right => WellBoundExpr scope left ∧ WellBoundExpr scope right
  | .conditional test consequent alternate =>
    WellBoundExpr scope test ∧ WellBoundExpr scope consequent ∧ WellBoundExpr scope alternate
  | .assignment _ _ right => WellBoundExpr scope right
  | .staticMember object _ _ => WellBoundExpr scope object
  | .operands _ parts => WellBoundExprs scope parts
  | .function inner _ body => Entered scope inner ∧ WellBoundStmts (inner.getD scope) body
  | .arrow inner _ body => Entered scope inner ∧ WellBoundExpr (inner.getD scope) body
  | .initializer _ value => WellBoundExpr scope value
  -- targets and the forms without an arm are not built
  | _ => True

def WellBoundExprs (scope : Scope) : List Expr → Prop
  | [] => True
  | expr :: rest => WellBoundExpr scope expr ∧ WellBoundExprs scope rest

def WellBoundStmt (scope : Scope) : Stmt → Prop
  | .declaration _ _ init => WellBoundExpr scope init
  | .function _ inner _ body => Entered scope inner ∧ WellBoundStmts (inner.getD scope) body
  | .class _ elements => WellBoundExprs scope elements
  | .expression expr => WellBoundExpr scope expr
  | .return argument => WellBoundExprs scope argument
  | .throw argument => WellBoundExpr scope argument
  | .ite test consequent alternate =>
    WellBoundExpr scope test ∧ WellBoundStmt scope consequent ∧ WellBoundStmt scope alternate
  | .block inner body => Entered scope inner ∧ WellBoundStmts (inner.getD scope) body
  | .switch inner discriminant clauses =>
    WellBoundExpr scope discriminant ∧ Entered scope inner ∧
      WellBoundClauses (inner.getD scope) clauses
  | .while test body => WellBoundExpr scope test ∧ WellBoundStmt scope body
  | .labeled _ body => WellBoundStmt scope body
  | _ => True

def WellBoundStmts (scope : Scope) : List Stmt → Prop
  | [] => True
  | stmt :: rest => WellBoundStmt scope stmt ∧ WellBoundStmts scope rest

def WellBoundClauses (scope : Scope) : List Clause → Prop
  | [] => True
  | .case _ consequent :: rest => WellBoundStmts scope consequent ∧ WellBoundClauses scope rest
  | .default consequent :: rest => WellBoundStmts scope consequent ∧ WellBoundClauses scope rest

end

mutual

/-- No scope has been made in an expression yet. -/
def Expr.isUnbound : Expr → Bool
  | .paren inner => inner.isUnbound
  | .unary _ argument => argument.isUnbound
  | .binary _ left right => left.isUnbound && right.isUnbound
  | .logical _ left right => left.isUnbound && right.isUnbound
  | .conditional test consequent alternate =>
    test.isUnbound && consequent.isUnbound && alternate.isUnbound
  | .assignment _ target right => target.isUnbound && right.isUnbound
  | .staticMember object _ _ => object.isUnbound
  | .operands _ parts => areUnbound parts
  | .function inner _ body => inner.isNone && areUnboundStmts body
  | .arrow inner _ body => inner.isNone && body.isUnbound
  | .initializer _ value => value.isUnbound
  | .update argument => argument.isUnbound
  | .unbuilt parts => areUnbound parts
  | _ => true

def areUnbound : List Expr → Bool
  | [] => true
  | expr :: rest => expr.isUnbound && areUnbound rest

def Stmt.isUnbound : Stmt → Bool
  | .declaration _ _ init => init.isUnbound
  | .function _ inner _ body => inner.isNone && areUnboundStmts body
  | .class _ elements => areUnbound elements
  | .expression expr => expr.isUnbound
  | .return argument => areUnbound argument
  | .throw argument => argument.isUnbound
  | .ite test consequent alternate =>
    test.isUnbound && consequent.isUnbound && alternate.isUnbound
  | .block inner body => inner.isNone && areUnboundStmts body
  | .switch inner discriminant clauses =>
    inner.isNone && discriminant.isUnbound && areUnboundClauses clauses
  | .while test body => test.isUnbound && body.isUnbound
  | .labeled _ body => body.isUnbound
  | .unbuilt _ inner _ parts bodies => inner.isNone && areUnbound parts && areUnboundStmts bodies
  | _ => true

def areUnboundStmts : List Stmt → Bool
  | [] => true
  | stmt :: rest => stmt.isUnbound && areUnboundStmts rest

def areUnboundClauses : List Clause → Bool
  | [] => true
  | .case test consequent :: rest =>
    test.isUnbound && areUnboundStmts consequent && areUnboundClauses rest
  | .default consequent :: rest => areUnboundStmts consequent && areUnboundClauses rest

end

variable {scope : Scope}

theorem entered_of_isNone {inner : Option Scope} (h : inner.isNone = true) :
    Entered scope inner := by
  rintro found rfl
  cases h

theorem getD_of_isNone {inner : Option Scope} (h : inner.isNone = true) :
    inner.getD scope = scope := by
  cases inner with
  | none => rfl
  | some found => cases h

mutual

/-- Where no scope has been made, both walks stay in the current scope. -/
theorem wellBoundExpr_of_isUnbound (scope : Scope) :
    ∀ expr : Expr, expr.isUnbound = true → WellBoundExpr scope expr
  | .identifier _ _, _ | .literal _, _ | .null, _ | .update _, _ | .unbuilt _, _ => trivial
  | .paren inner, h => wellBoundExpr_of_isUnbound scope inner h
  | .unary _ argument, h => wellBoundExpr_of_isUnbound scope argument h
  | .staticMember object _ _, h => wellBoundExpr_of_isUnbound scope object h
  | .initializer _ value, h => wellBoundExpr_of_isUnbound scope value h
  | .operands _ parts, h => wellBoundExprs_of_isUnbound scope parts h
  | .binary _ left right, h => by
    rw [Expr.isUnbound, and_eq_true] at h
    exact ⟨wellBoundExpr_of_isUnbound scope left h.1, wellBoundExpr_of_isUnbound scope right h.2⟩
  | .logical _ left right, h => by
    rw [Expr.isUnbound, and_eq_true] at h
    exact ⟨wellBoundExpr_of_isUnbound scope left h.1, wellBoundExpr_of_isUnbound scope right h.2⟩
  | .conditional test consequent alternate, h => by
    rw [Expr.isUnbound, and_eq_true, and_eq_true] at h
    exact ⟨wellBoundExpr_of_isUnbound scope test h.1.1,
      wellBoundExpr_of_isUnbound scope consequent h.1.2,
        wellBoundExpr_of_isUnbound scope alternate h.2⟩
  | .assignment _ _ right, h => by
    rw [Expr.isUnbound, and_eq_true] at h
    exact wellBoundExpr_of_isUnbound scope right h.2
  | .function inner _ body, h => by
    rw [Expr.isUnbound, and_eq_true] at h
    refine ⟨entered_of_isNone h.1, ?_⟩
    rw [getD_of_isNone h.1]
    exact wellBoundStmts_of_isUnbound scope body h.2
  | .arrow inner _ body, h => by
    rw [Expr.isUnbound, and_eq_true] at h
    refine ⟨entered_of_isNone h.1, ?_⟩
    rw [getD_of_isNone h.1]
    exact wellBoundExpr_of_isUnbound scope body h.2

theorem wellBoundExprs_of_isUnbound (scope : Scope) :
    ∀ exprs : List Expr, areUnbound exprs = true → WellBoundExprs scope exprs
  | [], _ => trivial
  | expr :: rest, h => by
    rw [areUnbound, and_eq_true] at h
    exact ⟨wellBoundExpr_of_isUnbound scope expr h.1, wellBoundExprs_of_isUnbound scope rest h.2⟩

theorem wellBoundStmt_of_isUnbound (scope : Scope) :
    ∀ stmt : Stmt, stmt.isUnbound = true → WellBoundStmt scope stmt
  | .empty, _ | .variable _ _, _ | .break _, _ | .continue _, _ | .unbuilt _ _ _ _ _, _ => trivial
  | .declaration _ _ init, h => wellBoundExpr_of_isUnbound scope init h
  | .class _ elements, h => wellBoundExprs_of_isUnbound scope elements h
  | .expression expr, h => wellBoundExpr_of_isUnbound scope expr h
  | .return argument, h => wellBoundExprs_of_isUnbound scope argument h
  | .throw argument, h => wellBoundExpr_of_isUnbound scope argument h
  | .labeled _ body, h => wellBoundStmt_of_isUnbound scope body h
  | .ite test consequent alternate, h => by
    rw [Stmt.isUnbound, and_eq_true, and_eq_true] at h
    exact ⟨wellBoundExpr_of_isUnbound scope test h.1.1,
      wellBoundStmt_of_isUnbound scope consequent h.1.2,
        wellBoundStmt_of_isUnbound scope alternate h.2⟩
  | .while test body, h => by
    rw [Stmt.isUnbound, and_eq_true] at h
    exact ⟨wellBoundExpr_of_isUnbound scope test h.1, wellBoundStmt_of_isUnbound scope body h.2⟩
  | .function _ inner _ body, h => by
    rw [Stmt.isUnbound, and_eq_true] at h
    refine ⟨entered_of_isNone h.1, ?_⟩
    rw [getD_of_isNone h.1]
    exact wellBoundStmts_of_isUnbound scope body h.2
  | .block inner body, h => by
    rw [Stmt.isUnbound, and_eq_true] at h
    refine ⟨entered_of_isNone h.1, ?_⟩
    rw [getD_of_isNone h.1]
    exact wellBoundStmts_of_isUnbound scope body h.2
  | .switch inner discriminant clauses, h => by
    rw [Stmt.isUnbound, and_eq_true, and_eq_true] at h
    refine ⟨wellBoundExpr_of_isUnbound scope discriminant h.1.2, entered_of_isNone h.1.1, ?_⟩
    rw [getD_of_isNone h.1.1]
    exact wellBoundClauses_of_isUnbound scope clauses h.2

theorem wellBoundStmts_of_isUnbound (scope : Scope) :
    ∀ stmts : List Stmt, areUnboundStmts stmts = true → WellBoundStmts scope stmts
  | [], _ => trivial
  | stmt :: rest, h => by
    rw [areUnboundStmts, and_eq_true] at h
    exact ⟨wellBoundStmt_of_isUnbound scope stmt h.1, wellBoundStmts_of_isUnbound scope rest h.2⟩

theorem wellBoundClauses_of_isUnbound (scope : Scope) :
    ∀ clauses : List Clause, areUnboundClauses clauses = true → WellBoundClauses scope clauses
  | [], _ => trivial
  | .case _ consequent :: rest, h => by
    rw [areUnboundClauses, and_eq_true, and_eq_true] at h
    exact ⟨wellBoundStmts_of_isUnbound scope consequent h.1.2,
      wellBoundClauses_of_isUnbound scope rest h.2⟩
  | .default consequent :: rest, h => by
    rw [areUnboundClauses, and_eq_true] at h
    exact ⟨wellBoundStmts_of_isUnbound scope consequent h.1,
      wellBoundClauses_of_isUnbound scope rest h.2⟩

end

/-- The scopes so far have smaller numbers. -/
def Below (scope : Scope) (next : Nat) : Prop := ∀ frame ∈ scope, frame.id < next

theorem Below.mono {next next' : Nat} (h : Below scope next) (hle : next ≤ next') :
    Below scope next' :=
  fun frame hframe => Nat.lt_of_lt_of_le (h frame hframe) hle

theorem Below.push {next : Nat} (h : Below scope next) (names : List Name) :
    Below (⟨next, names⟩ :: scope) (next + 1) := by
  intro frame hframe
  rcases mem_cons.mp hframe with rfl | hframe
  · exact Nat.lt_succ_self next
  · exact Nat.lt_succ_of_lt (h frame hframe)

theorem Below.entered {next : Nat} (h : Below scope next) (names : List Name) :
    Entered scope (some (⟨next, names⟩ :: scope)) := by
  intro found hfound
  refine ⟨⟨next, names⟩, (some.inj hfound).symm, ?_⟩
  intro hmem
  obtain ⟨frame, hframe, hid⟩ := mem_map.mp hmem
  exact absurd (h frame hframe) (by simp [hid])

mutual

/-- What the binder makes of an expression, and that it only counts up. -/
theorem wellBound_bindExpr : ∀ (expr : Expr) (scope : Scope) (next : Nat),
    expr.isUnbound = true → Below scope next →
    WellBoundExpr scope (bindExpr scope expr next).1 ∧ next ≤ (bindExpr scope expr next).2
  | .identifier _ _, _, _, _, _ | .literal _, _, _, _, _ | .null, _, _, _, _
  | .update _, _, _, _, _ | .unbuilt _, _, _, _, _ => ⟨trivial, le_rfl⟩
  -- operators have no arm: where no scope is made, none is entered
  | .unary op argument, scope, _, h, _ =>
    ⟨wellBoundExpr_of_isUnbound scope (.unary op argument) h, le_rfl⟩
  | .binary op left right, scope, _, h, _ =>
    ⟨wellBoundExpr_of_isUnbound scope (.binary op left right) h, le_rfl⟩
  | .logical op left right, scope, _, h, _ =>
    ⟨wellBoundExpr_of_isUnbound scope (.logical op left right) h, le_rfl⟩
  | .conditional test consequent alternate, scope, _, h, _ =>
    ⟨wellBoundExpr_of_isUnbound scope (.conditional test consequent alternate) h, le_rfl⟩
  | .paren inner, scope, next, h, hnext => wellBound_bindExpr inner scope next h hnext
  | .staticMember object _ _, scope, next, h, hnext =>
    wellBound_bindExpr object scope next h hnext
  | .initializer _ value, scope, next, h, hnext => wellBound_bindExpr value scope next h hnext
  | .operands form parts, scope, next, h, hnext => by
    rw [bindExpr]
    split
    · exact wellBound_bindExprs parts scope next h hnext
    · exact ⟨wellBoundExprs_of_isUnbound scope parts h, le_rfl⟩
  | .assignment _ _ right, scope, next, h, hnext => by
    rw [Expr.isUnbound, and_eq_true] at h
    exact wellBound_bindExpr right scope next h.2 hnext
  | .function _ params body, scope, next, h, hnext => by
    rw [Expr.isUnbound, and_eq_true] at h
    obtain ⟨hbody, hle⟩ := wellBound_bindStmts body _ (next + 1) h.2 (hnext.push _)
    exact ⟨⟨hnext.entered _, hbody⟩, (Nat.le_succ next).trans hle⟩
  | .arrow _ params body, scope, next, h, hnext => by
    rw [Expr.isUnbound, and_eq_true] at h
    obtain ⟨hbody, hle⟩ := wellBound_bindExpr body _ (next + 1) h.2 (hnext.push params)
    exact ⟨⟨hnext.entered _, hbody⟩, (Nat.le_succ next).trans hle⟩

theorem wellBound_bindExprs : ∀ (exprs : List Expr) (scope : Scope) (next : Nat),
    areUnbound exprs = true → Below scope next →
    WellBoundExprs scope (bindExprs scope exprs next).1 ∧ next ≤ (bindExprs scope exprs next).2
  | [], _, _, _, _ => ⟨trivial, le_rfl⟩
  | expr :: rest, scope, next, h, hnext => by
    rw [areUnbound, and_eq_true] at h
    obtain ⟨hexpr, hle⟩ := wellBound_bindExpr expr scope next h.1 hnext
    obtain ⟨hrest, hle'⟩ := wellBound_bindExprs rest scope _ h.2 (hnext.mono hle)
    exact ⟨⟨hexpr, hrest⟩, hle.trans hle'⟩

theorem wellBound_bindStmt : ∀ (stmt : Stmt) (scope : Scope) (next : Nat),
    stmt.isUnbound = true → Below scope next →
    WellBoundStmt scope (bindStmt scope stmt next).1 ∧ next ≤ (bindStmt scope stmt next).2
  | .empty, _, _, _, _ | .variable _ _, _, _, _, _ | .break _, _, _, _, _
  | .continue _, _, _, _, _ => ⟨trivial, le_rfl⟩
  | .throw argument, scope, _, h, _ => ⟨wellBoundExpr_of_isUnbound scope argument h, le_rfl⟩
  | .declaration _ _ init, scope, next, h, hnext => wellBound_bindExpr init scope next h hnext
  | .class _ elements, scope, next, h, hnext => wellBound_bindExprs elements scope next h hnext
  | .expression expr, scope, next, h, hnext => wellBound_bindExpr expr scope next h hnext
  | .return argument, scope, next, h, hnext => wellBound_bindExprs argument scope next h hnext
  | .labeled _ body, scope, next, h, hnext => wellBound_bindStmt body scope next h hnext
  | .ite test consequent alternate, scope, next, h, hnext => by
    rw [Stmt.isUnbound, and_eq_true, and_eq_true] at h
    obtain ⟨htest, hle⟩ := wellBound_bindExpr test scope next h.1.1 hnext
    obtain ⟨hconsequent, hle'⟩ := wellBound_bindStmt consequent scope _ h.1.2 (hnext.mono hle)
    obtain ⟨halternate, hle''⟩ :=
      wellBound_bindStmt alternate scope _ h.2 (hnext.mono (hle.trans hle'))
    exact ⟨⟨htest, hconsequent, halternate⟩, (hle.trans hle').trans hle''⟩
  | .while test body, scope, next, h, hnext => by
    rw [Stmt.isUnbound, and_eq_true] at h
    obtain ⟨htest, hle⟩ := wellBound_bindExpr test scope next h.1 hnext
    obtain ⟨hbody, hle'⟩ := wellBound_bindStmt body scope _ h.2 (hnext.mono hle)
    exact ⟨⟨htest, hbody⟩, hle.trans hle'⟩
  | .function _ _ params body, scope, next, h, hnext => by
    rw [Stmt.isUnbound, and_eq_true] at h
    obtain ⟨hbody, hle⟩ := wellBound_bindStmts body _ (next + 1) h.2 (hnext.push _)
    exact ⟨⟨hnext.entered _, hbody⟩, (Nat.le_succ next).trans hle⟩
  | .block _ body, scope, next, h, hnext => by
    rw [Stmt.isUnbound, and_eq_true] at h
    obtain ⟨hbody, hle⟩ := wellBound_bindStmts body _ (next + 1) h.2 (hnext.push _)
    exact ⟨⟨hnext.entered _, hbody⟩, (Nat.le_succ next).trans hle⟩
  | .switch _ discriminant clauses, scope, next, h, hnext => by
    rw [Stmt.isUnbound, and_eq_true, and_eq_true] at h
    obtain ⟨hdiscriminant, hle⟩ := wellBound_bindExpr discriminant scope next h.1.2 hnext
    have hinner := hnext.mono hle
    obtain ⟨hclauses, hle'⟩ := wellBound_bindClauses clauses _ _ h.2 (hinner.push _)
    exact ⟨⟨hdiscriminant, hinner.entered _, hclauses⟩, hle.trans ((Nat.le_succ _).trans hle')⟩
  | .unbuilt form _ names parts bodies, scope, next, h, hnext => by
    rw [Stmt.isUnbound, and_eq_true, and_eq_true] at h
    have hbound : ∀ (inner : Scope) (start : Nat), Below inner start →
        start ≤ (bindStmts inner bodies (bindExprs inner parts start).2).2 := by
      intro inner start hstart
      have hle := (wellBound_bindExprs parts inner start h.1.2 hstart).2
      exact hle.trans (wellBound_bindStmts bodies inner _ h.2 (hstart.mono hle)).2
    rw [bindStmt]
    split
    · exact ⟨trivial, (Nat.le_succ next).trans (hbound _ _ (hnext.push _))⟩
    · exact ⟨trivial, hbound _ _ hnext⟩

/-- **The scopes that the binder makes extend the scopes around them.** -/
theorem wellBound_bindStmts : ∀ (stmts : List Stmt) (scope : Scope) (next : Nat),
    areUnboundStmts stmts = true → Below scope next →
    WellBoundStmts scope (bindStmts scope stmts next).1 ∧ next ≤ (bindStmts scope stmts next).2
  | [], _, _, _, _ => ⟨trivial, le_rfl⟩
  | stmt :: rest, scope, next, h, hnext => by
    rw [areUnboundStmts, and_eq_true] at h
    obtain ⟨hstmt, hle⟩ := wellBound_bindStmt stmt scope next h.1 hnext
    obtain ⟨hrest, hle'⟩ := wellBound_bindStmts rest scope _ h.2 (hnext.mono hle)
    exact ⟨⟨hstmt, hrest⟩, hle.trans hle'⟩

theorem wellBound_bindClauses : ∀ (clauses : List Clause) (scope : Scope) (next : Nat),
    areUnboundClauses clauses = true → Below scope next →
    WellBoundClauses scope (bindClauses scope clauses next).1 ∧
      next ≤ (bindClauses scope clauses next).2
  | [], _, _, _, _ => ⟨trivial, le_rfl⟩
  | .case test consequent :: rest, scope, next, h, hnext => by
    rw [areUnboundClauses, and_eq_true, and_eq_true] at h
    obtain ⟨-, hle⟩ := wellBound_bindExpr test scope next h.1.1 hnext
    obtain ⟨hconsequent, hle'⟩ := wellBound_bindStmts consequent scope _ h.1.2 (hnext.mono hle)
    obtain ⟨hrest, hle''⟩ :=
      wellBound_bindClauses rest scope _ h.2 (hnext.mono (hle.trans hle'))
    exact ⟨⟨hconsequent, hrest⟩, (hle.trans hle').trans hle''⟩
  | .default consequent :: rest, scope, next, h, hnext => by
    rw [areUnboundClauses, and_eq_true] at h
    obtain ⟨hconsequent, hle⟩ := wellBound_bindStmts consequent scope next h.1 hnext
    obtain ⟨hrest, hle'⟩ := wellBound_bindClauses rest scope _ h.2 (hnext.mono hle)
    exact ⟨⟨hconsequent, hrest⟩, hle.trans hle'⟩

end

/-! ## §3 Names of guards -/

/-- The symbol is the binding of an occurrence, as the builder resolves it: outside the
clauses of the `switch` statements in which the occurrence directly stands. -/
def Named (visits : List Visit) (occurrence : Occurrence) (symbol : SymbolId) : Prop :=
  ∃ visit ∈ visits, visit.occurrence = occurrence ∧
    ∃ outer : Scope, visit.scope = visit.direct ++ outer ∧
      (visit.scope.map ScopeFrame.id).Nodup ∧
      outer.resolveValue occurrence.name = some symbol

theorem Named.mono {visits visits' : List Visit} (hsub : visits ⊆ visits') {occurrence : Occurrence}
    {symbol : SymbolId} (h : Named visits occurrence symbol) : Named visits' occurrence symbol := by
  obtain ⟨visit, hvisit, hrest⟩ := h
  exact ⟨visit, hsub hvisit, hrest⟩

section Guards

variable {direct : List ScopeFrame} {outer : Scope}
  (hnodup : ((direct ++ outer).map ScopeFrame.id).Nodup)

include hnodup

theorem named_identifier (span : Span) {name : Name} {symbol : SymbolId}
    (h : outer.resolveValue name = some symbol) :
    Named (checkExpr direct (direct ++ outer) (.identifier span name)) ⟨span, name⟩ symbol :=
  ⟨_, mem_singleton_self _, rfl, outer, rfl, hnodup, h⟩

theorem named_conditionSymbol {expr : Expr} {symbol : SymbolId} {occurrence : Occurrence}
    (h : conditionSymbol outer expr = some (symbol, occurrence)) :
    Named (checkExpr direct (direct ++ outer) expr) occurrence symbol := by
  rcases conditionSymbol_cases expr with hnone | ⟨span, name, rfl, -, hsome⟩
  · rw [hnone outer] at h
    cases h
  · rw [hsome outer, map_eq_some_iff] at h
    obtain ⟨found, hfound, heq⟩ := h
    cases heq
    exact named_identifier hnodup span hfound

theorem named_memberDiscriminant {expr : Expr} {symbol : SymbolId} {property : Name}
    {occurrence : Occurrence}
    (h : memberDiscriminant outer expr = some (symbol, property, occurrence)) :
    Named (checkExpr direct (direct ++ outer) expr) occurrence symbol := by
  unfold memberDiscriminant at h
  split at h
  · split at h
    · cases h
    · rw [map_eq_some_iff] at h
      obtain ⟨found, hfound, heq⟩ := h
      cases heq
      rw [checkExpr]
      exact named_conditionSymbol hnodup hfound
  · cases h

section Equality

variable {left right : Expr} {fact : GuardFact}

theorem named_typeofGuard {positive : Bool} (h : typeofGuard outer left right positive = some fact) :
    Named (checkExpr direct (direct ++ outer) left) fact.occurrence fact.symbol := by
  unfold typeofGuard at h
  split at h
  · split at h
    · rename_i hsymbol _
      cases h
      rw [checkExpr]
      exact named_conditionSymbol hnodup hsymbol
    · cases h
  · cases h

theorem named_nullishGuard {positive : Bool}
    (h : nullishGuard outer left right positive = some fact) :
    Named (checkExpr direct (direct ++ outer) left) fact.occurrence fact.symbol := by
  have hfact : ∀ found, conditionSymbol outer left = some found →
      nullishGuard outer left right positive = some fact →
      fact.symbol = found.1 ∧ fact.occurrence = found.2 := by
    intro found hfound h
    rcases nullishGuard_cases left right positive with hnone | ⟨-, rfl | ⟨span, rfl⟩, -⟩
    · rw [hnone outer] at h
      cases h
    · simp only [nullishGuard, hfound, some.injEq] at h
      subst h
      exact ⟨rfl, rfl⟩
    · simp only [nullishGuard, hfound, if_true, some.injEq] at h
      subst h
      exact ⟨rfl, rfl⟩
  cases hsymbol : conditionSymbol outer left with
  | none => simp [nullishGuard, hsymbol] at h
  | some found =>
    obtain ⟨hfst, hsnd⟩ := hfact found hsymbol h
    rw [hfst, hsnd]
    exact named_conditionSymbol hnodup hsymbol

theorem named_discriminantGuard {env : FlowEnv} {positive : Bool}
    (h : discriminantGuard env outer left right positive = some fact) :
    Named (checkExpr direct (direct ++ outer) left) fact.occurrence fact.symbol := by
  unfold discriminantGuard at h
  split at h
  · rename_i hmember _
    cases h
    exact named_memberDiscriminant hnodup hmember
  · cases h

/-- A guard of one operand is a guard of the comparison. -/
theorem named_analyzeEqualityGuard {env : FlowEnv} {op : BinaryOperator}
    (h : analyzeEqualityGuard env outer op left right = some fact) :
    Named (checkExpr direct (direct ++ outer) (.binary op left right)) fact.occurrence
      fact.symbol := by
  have hleft : Named (checkExpr direct (direct ++ outer) left) fact.occurrence fact.symbol →
      Named (checkExpr direct (direct ++ outer) (.binary op left right)) fact.occurrence
        fact.symbol := by
    rw [checkExpr]
    exact Named.mono (subset_append_left _ _)
  have hright : Named (checkExpr direct (direct ++ outer) right) fact.occurrence fact.symbol →
      Named (checkExpr direct (direct ++ outer) (.binary op left right)) fact.occurrence
        fact.symbol := by
    rw [checkExpr]
    exact Named.mono (subset_append_right _ _)
  -- the six forms, for either operand
  have hform : ∃ positive, typeofGuard outer left right positive = some fact ∨
      typeofGuard outer right left positive = some fact ∨
      nullishGuard outer left right positive = some fact ∨
      nullishGuard outer right left positive = some fact ∨
      discriminantGuard env outer left right positive = some fact ∨
      discriminantGuard env outer right left positive = some fact := by
    cases op <;> simp only [analyzeEqualityGuard] at h <;> grind
  rcases hform with ⟨positive, hfound | hfound | hfound | hfound | hfound | hfound⟩
  · exact hleft (named_typeofGuard hnodup hfound)
  · exact hright (named_typeofGuard hnodup hfound)
  · exact hleft (named_nullishGuard hnodup hfound)
  · exact hright (named_nullishGuard hnodup hfound)
  · exact hleft (named_discriminantGuard hnodup hfound)
  · exact hright (named_discriminantGuard hnodup hfound)

end Equality

/-- A recognized guard names an occurrence in the test. -/
theorem named_analyzeGuard (env : FlowEnv) (expr : Expr) {fact : GuardFact}
    (h : analyzeGuard env outer expr = some fact) :
    Named (checkExpr direct (direct ++ outer) expr) fact.occurrence fact.symbol := by
  induction expr using analyzeGuard.induct generalizing fact with
  | case1 argument ih =>
    rw [analyzeGuard, map_eq_some_iff] at h
    obtain ⟨found, hfound, rfl⟩ := h
    have hnamed := ih hfound
    rwa [checkExpr]
  | case2 inner ih =>
    rw [checkExpr]
    exact ih h
  | case3 span name right =>
    rw [analyzeGuard, map_eq_some_iff] at h
    obtain ⟨symbol, hsymbol, rfl⟩ := h
    rw [checkExpr]
    exact (named_identifier hnodup span hsymbol).mono (subset_append_left _ _)
  | case4 span name =>
    rw [analyzeGuard, map_eq_some_iff] at h
    obtain ⟨found, hfound, rfl⟩ := h
    exact named_conditionSymbol hnodup hfound
  | case5 left right =>
    rw [analyzeGuard] at h
    unfold inGuard at h
    split at h
    · rename_i hsymbol
      cases h
      rw [checkExpr]
      exact (named_conditionSymbol hnodup hsymbol).mono (subset_append_right _ _)
    · cases h
  | case6 op left right hop =>
    rw [analyzeGuard] at h
    · exact named_analyzeEqualityGuard hnodup h
    · exact hop
  | case7 expr h₁ h₂ h₃ h₄ h₅ h₆ =>
    unfold analyzeGuard at h
    split at h <;> first | cases h | simp_all

end Guards

/-! ## §4 Nodes with a symbol -/

/-- The symbol that an assignment or a condition node carries. -/
def FlowNode.symbol : FlowNode → Option SymbolId
  | .assignment symbol _ _ => some symbol
  | .condition symbol _ _ _ => some symbol
  | _ => none

/-- The symbols of the arena, node by node. -/
def Builder.symbols (b : Builder) : List (Option SymbolId) := b.nodes.map FlowNode.symbol

/-- Every node made between two points that carries a symbol was made for an occurrence that
fits the symbol. -/
structure Marked (fits : Occurrence → SymbolId → Prop) (b b' : Builder) : Prop where
  symbols : b.symbols <+: b'.symbols
  origins : b.origins ⊆ b'.origins
  made : ∀ (node : Nat) (symbol : SymbolId), b.symbols.length ≤ node →
    b'.symbols[node]? = some (some symbol) →
    ∃ occurrence, (node, occurrence) ∈ b'.origins ∧ fits occurrence symbol

namespace Marked

variable {fits : Occurrence → SymbolId → Prop} {b b₁ b₂ : Builder}

/-- Steps that make no node with a symbol. -/
theorem silent (added : List (Option SymbolId)) (hsymbols : b₁.symbols = b.symbols ++ added)
    (hadded : ∀ symbol ∈ added, symbol = none) (horigins : b₁.origins = b.origins) :
    Marked fits b b₁ := by
  refine ⟨⟨added, hsymbols.symm⟩, horigins ▸ List.Subset.refl _, ?_⟩
  intro node symbol hnode hsymbol
  rw [hsymbols, getElem?_append_right hnode] at hsymbol
  exact absurd (hadded _ (mem_of_getElem? hsymbol)) (by simp)

theorem of_eq (hsymbols : b₁.symbols = b.symbols) (horigins : b₁.origins = b.origins) :
    Marked fits b b₁ :=
  silent [] (hsymbols.trans (append_nil _).symm) (by simp) horigins

theorem refl (b : Builder) : Marked fits b b := of_eq rfl rfl

theorem trans (h : Marked fits b b₁) (h' : Marked fits b₁ b₂) : Marked fits b b₂ := by
  refine ⟨h.symbols.trans h'.symbols, List.Subset.trans h.origins h'.origins, ?_⟩
  intro node symbol hnode hsymbol
  by_cases hlt : node < b₁.symbols.length
  · -- made before the point in between, and still the same
    have hbefore : b₁.symbols[node]? = some (some symbol) := by
      obtain ⟨added, hadded⟩ := h'.symbols
      rwa [← hadded, getElem?_append_left hlt] at hsymbol
    obtain ⟨occurrence, horigin, hfits⟩ := h.made node symbol hnode hbefore
    exact ⟨occurrence, h'.origins horigin, hfits⟩
  · exact h'.made node symbol (Nat.le_of_not_lt hlt) hsymbol

/-- A node for an occurrence. -/
theorem newFlowFor {row : FlowNode} {occurrence : Occurrence} {symbol : SymbolId}
    (hrow : row.symbol = some symbol) (hfits : fits occurrence symbol) :
    Marked fits b (b.newFlowFor row occurrence).2 := by
  have hsymbols : (b.newFlowFor row occurrence).2.symbols = b.symbols ++ [some symbol] := by
    simp [Builder.symbols, Builder.newFlowFor, hrow]
  refine ⟨⟨_, hsymbols.symm⟩, subset_cons_self _ _, ?_⟩
  intro node symbol' hnode hsymbol
  rw [hsymbols, getElem?_append_right hnode] at hsymbol
  obtain ⟨hindex, heq⟩ : node - b.symbols.length = 0 ∧ symbol = symbol' := by
    simpa [getElem?_singleton] using hsymbol
  have hlength : b.symbols.length = b.nodes.length := length_map _
  obtain rfl : node = b.nodes.length := by omega
  exact ⟨occurrence, mem_cons_self, heq ▸ hfits⟩

theorem assign {symbol : SymbolId} {assigned : Option FlowType} {occurrence : Occurrence}
    (hfits : fits occurrence symbol) : Marked fits b (b.assign symbol assigned occurrence) := by
  have hnode : Marked fits b
      (b.newFlowFor (.assignment symbol assigned b.cursor) occurrence).2 := newFlowFor rfl hfits
  exact hnode.trans (of_eq rfl rfl)

theorem flowCondition (antecedent : FlowNodeId) {fact : Option GuardFact} (result : Bool)
    (hfits : ∀ found, fact = some found → fits found.occurrence found.symbol) :
    Marked fits b (b.flowCondition antecedent fact result).2 := by
  unfold Builder.flowCondition
  split
  · exact refl b
  · cases fact with
    | none => exact refl b
    | some found => exact newFlowFor rfl (hfits found rfl)

theorem flowJoin (antecedents : List FlowNodeId) : Marked fits b (b.flowJoin antecedents).2 := by
  unfold Builder.flowJoin
  split
  · exact refl b
  · exact refl b
  · exact silent [none] (by simp [Builder.symbols, Builder.newFlow, FlowNode.symbol])
      (by simp) rfl

theorem joinAt (antecedents : List FlowNodeId) : Marked fits b (b.joinAt antecedents) :=
  (flowJoin antecedents).trans (of_eq rfl rfl)

theorem openLoop : Marked fits b b.openLoop :=
  silent [none] (by simp [Builder.symbols, Builder.openLoop, Builder.newFlow, FlowNode.symbol])
    (by simp) rfl

theorem addBackEdge (label edge : FlowNodeId) : Marked fits b (b.addBackEdge label edge) := by
  unfold Builder.addBackEdge
  split
  · exact refl b
  · refine of_eq ?_ rfl
    refine ext_getElem? (fun node => ?_)
    simp only [Builder.symbols, getElem?_map, getElem?_modify]
    cases b.nodes[node]? with
    | none => rfl
    | some row =>
      split
      · cases row <;> rfl
      · rfl

theorem pushBreak (cursor : FlowNodeId) : Marked fits b (b.pushBreak cursor) := by
  unfold Builder.pushBreak
  split <;> exact of_eq rfl rfl

end Marked

/-- Both modes of an expression. -/
structure MarkedModes (fits : Occurrence → SymbolId → Prop) (modes : Modes) : Prop where
  value : ∀ b : Builder, Marked fits b (modes.value b)
  condition : ∀ b : Builder, Marked fits b (modes.condition b).2

section Combinators

variable {fits : Occurrence → SymbolId → Prop}

theorem markedModes_leaf {env : FlowEnv} {scope : Scope} {expr : Expr}
    (hguard : ∀ fact, analyzeGuard env scope expr = some fact → fits fact.occurrence fact.symbol)
    {value : Builder → Builder} (h : ∀ b, Marked fits b (value b)) :
    MarkedModes fits (.leaf env scope expr value) := by
  refine ⟨h, ?_⟩
  intro b
  exact (h b).trans ((Marked.flowCondition _ true hguard).trans (Marked.flowCondition _ false hguard))

theorem marked_conditionLogical {left right : Modes} (hleft : MarkedModes fits left)
    (hright : MarkedModes fits right) (op : LogicalOperator) (b : Builder) :
    Marked fits b (conditionLogical op left right b).2 := by
  cases op with
  | and =>
    exact (hleft.condition b).trans ((Marked.of_eq (by rfl) (by rfl)).trans
      ((hright.condition _).trans (Marked.flowJoin _)))
  | or =>
    exact (hleft.condition b).trans ((Marked.of_eq (by rfl) (by rfl)).trans
      ((hright.condition _).trans (Marked.flowJoin _)))
  | coalesce => exact (hleft.value b).trans ((hright.value _).trans (Marked.flowJoin _))

theorem markedModes_logical {left right : Modes} (hleft : MarkedModes fits left)
    (hright : MarkedModes fits right) (op : LogicalOperator) :
    MarkedModes fits ⟨valueLogical op left right, conditionLogical op left right⟩ :=
  ⟨fun b => (marked_conditionLogical hleft hright op b).trans (Marked.joinAt _),
    marked_conditionLogical hleft hright op⟩

theorem marked_buildFlowIf {test : Modes} {consequent alternate : Builder → Builder}
    (htest : MarkedModes fits test) (hconsequent : ∀ b, Marked fits b (consequent b))
    (halternate : ∀ b, Marked fits b (alternate b)) (b : Builder) :
    Marked fits b (buildFlowIf test consequent alternate b) := by
  have hthen := hconsequent ((test.condition b).2.moveTo (test.condition b).1.1)
  have helse := halternate
    ((consequent ((test.condition b).2.moveTo (test.condition b).1.1)).moveTo (test.condition b).1.2)
  exact (htest.condition b).trans ((Marked.of_eq (by rfl) (by rfl)).trans (hthen.trans
    ((Marked.of_eq (by rfl) (by rfl)).trans (helse.trans (Marked.joinAt _)))))

theorem marked_buildFlowWhile {test : Modes} {body : Builder → Builder}
    (htest : MarkedModes fits test) (hbody : ∀ b, Marked fits b (body b)) (b : Builder) :
    Marked fits b (buildFlowWhile test body b) := by
  unfold buildFlowWhile
  split
  · exact .refl b
  · have hloop := hbody ((test.condition b.openLoop).2.pushLoop b.nodes.length
      (test.condition b.openLoop).1.1)
    have hleave (b : Builder) (edges : List FlowNodeId) : Marked fits b (b.popLoop.joinAt edges) :=
      (Marked.of_eq (by rfl) (by rfl)).trans (Marked.joinAt edges)
    exact Marked.openLoop.trans ((htest.condition _).trans ((Marked.of_eq (by rfl) (by rfl)).trans
      (hloop.trans ((Marked.addBackEdge _ _).trans (hleave _ _)))))

theorem marked_boundary {build : Builder → Builder} (h : ∀ b, Marked fits b (build b)) (b : Builder) :
    Marked fits b (b.boundary build) :=
  (Marked.of_eq (by rfl) (by rfl)).trans ((h b.fresh).trans (Marked.of_eq (by rfl) (by rfl)))

theorem marked_resetIdentifier {scope : Scope} {span : Span} {name : Name}
    (hfits : ∀ symbol, scope.resolveValue name = some symbol → fits ⟨span, name⟩ symbol)
    (b : Builder) : Marked fits b (resetIdentifier scope span name b) := by
  unfold resetIdentifier
  split
  · rename_i symbol hsymbol
    exact Marked.assign (hfits symbol hsymbol)
  · exact .refl b

/-- The conditions at the entry of a clause are about the discriminant. -/
theorem marked_switchCaseEntry (env : FlowEnv) (pre : FlowNodeId)
    {discriminant : Option (SymbolId × Name × Occurrence)} (labels : List TypeId) (clause : Clause)
    (hfits : ∀ symbol property occurrence, discriminant = some (symbol, property, occurrence) →
      fits occurrence symbol) (b : Builder) :
    Marked fits b (switchCaseEntry env pre discriminant labels clause b).2 := by
  have hchain : ∀ (symbol : SymbolId) (property : Name) (occurrence : Occurrence),
      fits occurrence symbol → ∀ (labels : List TypeId) (entry : FlowNodeId × Builder),
      Marked fits entry.2 (labels.foldl (fun entry literal => entry.2.newFlowFor
        (.condition symbol (.discriminant property literal) false entry.1) occurrence) entry).2 := by
    intro symbol property occurrence hfits labels
    induction labels with
    | nil => exact fun entry => .refl _
    | cons literal labels ih => exact fun entry => (Marked.newFlowFor rfl hfits).trans (ih _)
  unfold switchCaseEntry
  split
  · exact .refl b
  split
  · exact .refl b
  · rename_i symbol property occurrence
    have hdiscriminant := hfits symbol property occurrence rfl
    split
    · split
      · exact Marked.newFlowFor rfl hdiscriminant
      · exact .refl b
    · exact hchain symbol property occurrence hdiscriminant labels (pre, b)

theorem marked_enterClause (fellThrough : Option FlowNodeId) (direct : FlowNodeId) (b : Builder) :
    Marked fits b (enterClause fellThrough direct b) := by
  cases fellThrough with
  | none => exact Marked.of_eq rfl rfl
  | some prevEnd => exact Marked.joinAt _

end Combinators

/-! ## §5 Every node names a binding of the builder's scope -/

section Enter

variable {direct : List ScopeFrame} {outer : Scope} {inner : Option Scope}

/-- In a block or a function both walks are in the same scope. -/
theorem Entered.body (h : Entered (direct ++ outer) inner)
    (hnodup : ((direct ++ outer).map ScopeFrame.id).Nodup) :
    inner.getD (direct ++ outer) = inner.elim direct (fun _ => []) ++ inner.getD outer ∧
      ((inner.elim direct (fun _ => []) ++ inner.getD outer).map ScopeFrame.id).Nodup := by
  cases inner with
  | none => exact ⟨rfl, hnodup⟩
  | some found =>
    obtain ⟨frame, rfl, hfresh⟩ := h found rfl
    exact ⟨rfl, nodup_cons.mpr ⟨hfresh, hnodup⟩⟩

/-- In the clauses of a `switch` the builder stays outside. -/
theorem Entered.clauses (h : Entered (direct ++ outer) inner)
    (hnodup : ((direct ++ outer).map ScopeFrame.id).Nodup) :
    inner.getD (direct ++ outer) = ((inner.getD []).take 1 ++ direct) ++ outer ∧
      ((((inner.getD []).take 1 ++ direct) ++ outer).map ScopeFrame.id).Nodup := by
  cases inner with
  | none => exact ⟨rfl, hnodup⟩
  | some found =>
    obtain ⟨frame, rfl, hfresh⟩ := h found rfl
    exact ⟨rfl, nodup_cons.mpr ⟨hfresh, hnodup⟩⟩

end Enter

section Walk

variable {visits : List Visit} {direct : List ScopeFrame}

theorem marked_resetPatternTargets {outer : Scope}
    (hnodup : ((direct ++ outer).map ScopeFrame.id).Nodup) (target : Expr) (b : Builder)
    (hvisits : checkExpr direct (direct ++ outer) target ⊆ visits) :
    Marked (Named visits) b (resetPatternTargets outer target b) := by
  refine @resetPatternTargets.induct outer
    (fun target b => checkExpr direct (direct ++ outer) target ⊆ visits →
      Marked (Named visits) b (resetPatternTargets outer target b))
    (fun targets b => checkExprs direct (direct ++ outer) targets ⊆ visits →
      Marked (Named visits) b (resetAllTargets outer targets b))
    ?_ ?_ ?_ ?_ ?_ ?_ ?_ target b hvisits
  · intro span name b hvisits
    rw [resetPatternTargets]
    exact marked_resetIdentifier
      (fun symbol hsymbol => (named_identifier hnodup span hsymbol).mono hvisits) b
  · intro parts b ih hvisits
    rw [resetPatternTargets]
    exact ih hvisits
  · intro parts b ih hvisits
    rw [resetPatternTargets]
    exact ih hvisits
  · intro target right b ih hvisits
    rw [resetPatternTargets]
    rw [checkExpr, append_subset] at hvisits
    exact ih hvisits.1
  · intros
    simp [resetPatternTargets, Marked.refl]
  · intro b _
    exact .refl b
  · intro target rest b ih ihrest hvisits
    rw [checkExprs, append_subset] at hvisits
    rw [resetAllTargets]
    exact (ih hvisits.1).trans (ihrest hvisits.2)

theorem marked_assignTarget (env : FlowEnv) {outer : Scope}
    (hnodup : ((direct ++ outer).map ScopeFrame.id).Nodup) (op : AssignmentOperator)
    (target right : Expr) (hvisits : checkExpr direct (direct ++ outer) target ⊆ visits)
    (b : Builder) : Marked (Named visits) b (assignTarget env outer op target right b) := by
  unfold assignTarget
  split
  · exact .refl b
  split
  · rename_i span name
    split
    · exact .refl b
    · rename_i symbol hsymbol
      exact Marked.assign ((named_identifier hnodup span hsymbol).mono hvisits)
  · exact marked_resetPatternTargets hnodup target b hvisits

/-- The guards of an expression name what the checker visits there. -/
theorem markedModes_checked {env : FlowEnv} {outer : Scope} {expr : Expr}
    (hnodup : ((direct ++ outer).map ScopeFrame.id).Nodup)
    (hvisits : checkExpr direct (direct ++ outer) expr ⊆ visits) {value : Builder → Builder}
    (hvalue : ∀ b, Marked (Named visits) b (value b)) :
    MarkedModes (Named visits) (.leaf env outer expr value) :=
  markedModes_leaf (fun _ h => (named_analyzeGuard hnodup env _ h).mono hvisits) hvalue

mutual

/-- Expressions, with the scope of the builder inside the scope of the checker. -/
theorem markedModes_build (env : FlowEnv) : ∀ (expr : Expr) (direct : List ScopeFrame)
    (outer : Scope), WellBoundExpr (direct ++ outer) expr →
    ((direct ++ outer).map ScopeFrame.id).Nodup →
    checkExpr direct (direct ++ outer) expr ⊆ visits →
    MarkedModes (Named visits) (buildModes env outer expr)
  | .identifier span name, direct, outer, _, hnodup, hvisits => by
    rw [buildModes]
    exact markedModes_checked hnodup hvisits
      (fun b => .of_eq rfl rfl)
  | .paren inner, direct, outer, hbound, hnodup, hvisits => by
    have h := markedModes_build env inner direct outer hbound hnodup hvisits
    rw [buildModes]
    exact ⟨h.value, h.condition⟩
  | .logical op left right, direct, outer, hbound, hnodup, hvisits => by
    rw [checkExpr, append_subset] at hvisits
    rw [buildModes]
    exact markedModes_logical (markedModes_build env left direct outer hbound.1 hnodup hvisits.1)
      (markedModes_build env right direct outer hbound.2 hnodup hvisits.2) op
  | .conditional test consequent alternate, direct, outer, hbound, hnodup, hvisits => by
    obtain ⟨hfirst, halternate⟩ := append_subset.mp hvisits
    obtain ⟨htest, hconsequent⟩ := append_subset.mp hfirst
    rw [buildModes]
    exact markedModes_checked hnodup hvisits (marked_buildFlowIf
      (markedModes_build env test direct outer hbound.1 hnodup htest)
      (markedModes_build env consequent direct outer hbound.2.1 hnodup hconsequent).value
      (markedModes_build env alternate direct outer hbound.2.2 hnodup halternate).value)
  | .assignment op target right, direct, outer, hbound, hnodup, hvisits => by
    obtain ⟨htarget, hright⟩ := append_subset.mp hvisits
    rw [buildModes]
    exact markedModes_checked hnodup hvisits (fun b =>
      ((markedModes_build env right direct outer hbound hnodup hright).value b).trans
        (marked_assignTarget env hnodup op target right htarget _))
  | .unary .logicalNot argument, direct, outer, hbound, hnodup, hvisits => by
    have h := markedModes_build env argument direct outer hbound hnodup hvisits
    rw [buildModes]
    exact ⟨h.value, h.condition⟩
  | .unary .typeof argument, direct, outer, hbound, hnodup, hvisits => by
    rw [buildModes]
    · exact markedModes_checked hnodup hvisits
        (markedModes_build env argument direct outer hbound hnodup hvisits).value
    · simp
  | .unary .other argument, direct, outer, hbound, hnodup, hvisits => by
    rw [buildModes]
    · exact markedModes_checked hnodup hvisits
        (markedModes_build env argument direct outer hbound hnodup hvisits).value
    · simp
  | .binary op left right, direct, outer, hbound, hnodup, hvisits => by
    obtain ⟨hleft, hright⟩ := append_subset.mp hvisits
    rw [buildModes]
    exact markedModes_checked hnodup hvisits (fun b =>
      ((markedModes_build env left direct outer hbound.1 hnodup hleft).value b).trans
        ((markedModes_build env right direct outer hbound.2 hnodup hright).value _))
  | .staticMember object property optional, direct, outer, hbound, hnodup, hvisits => by
    rw [buildModes]
    exact markedModes_checked hnodup hvisits
      (markedModes_build env object direct outer hbound hnodup hvisits).value
  | .operands form parts, direct, outer, hbound, hnodup, hvisits => by
    rw [buildModes]
    exact markedModes_checked hnodup hvisits
      (marked_exprs env parts direct outer hbound hnodup hvisits)
  | .function inner params body, direct, outer, hbound, hnodup, hvisits => by
    -- the body is checked with the scope that the binder made for it
    obtain ⟨hscope, hinner⟩ := hbound.1.body hnodup
    have hbody := hbound.2
    rw [hscope] at hbody
    rw [buildModes]
    refine markedModes_checked hnodup hvisits
      (marked_boundary (marked_stmts env body _ _ hbody hinner ?_))
    rwa [checkExpr, hscope] at hvisits
  | .arrow inner params body, direct, outer, hbound, hnodup, hvisits => by
    obtain ⟨hscope, hinner⟩ := hbound.1.body hnodup
    have hbody := hbound.2
    rw [hscope] at hbody
    rw [buildModes]
    refine markedModes_checked hnodup hvisits
      (marked_boundary (markedModes_build env body _ _ hbody hinner ?_).value)
    rwa [checkExpr, hscope] at hvisits
  | .initializer isStatic value, direct, outer, hbound, hnodup, hvisits => by
    rw [buildModes]
    exact markedModes_checked hnodup hvisits
      (marked_boundary (markedModes_build env value direct outer hbound hnodup hvisits).value)
  | .literal _, _, _, _, _, _ | .null, _, _, _, _, _ | .update _, _, _, _, _, _
  | .unbuilt _, _, _, _, _, _ => markedModes_leaf (by simp [analyzeGuard]) (fun b => .refl b)

theorem marked_exprs (env : FlowEnv) : ∀ (exprs : List Expr) (direct : List ScopeFrame)
    (outer : Scope), WellBoundExprs (direct ++ outer) exprs →
    ((direct ++ outer).map ScopeFrame.id).Nodup →
    checkExprs direct (direct ++ outer) exprs ⊆ visits →
    ∀ b, Marked (Named visits) b (buildExprs env outer exprs b)
  | [], _, _, _, _, _, b => .refl b
  | expr :: rest, direct, outer, hbound, hnodup, hvisits, b => by
    rw [checkExprs, append_subset] at hvisits
    rw [buildExprs]
    exact ((markedModes_build env expr direct outer hbound.1 hnodup hvisits.1).value b).trans
      (marked_exprs env rest direct outer hbound.2 hnodup hvisits.2 _)

theorem marked_stmt (env : FlowEnv) : ∀ (stmt : Stmt) (direct : List ScopeFrame) (outer : Scope),
    WellBoundStmt (direct ++ outer) stmt → ((direct ++ outer).map ScopeFrame.id).Nodup →
    checkStmt direct (direct ++ outer) stmt ⊆ visits →
    ∀ b, Marked (Named visits) b (buildStmt env outer stmt b)
  | .declaration _ _ init, direct, outer, hbound, hnodup, hvisits, b => by
    rw [buildStmt]
    exact (markedModes_build env init direct outer hbound hnodup hvisits).value b
  | .function _ inner _ body, direct, outer, hbound, hnodup, hvisits, b => by
    obtain ⟨hscope, hinner⟩ := hbound.1.body hnodup
    have hbody := hbound.2
    rw [hscope] at hbody
    rw [checkStmt, hscope] at hvisits
    rw [buildStmt]
    exact marked_boundary (marked_stmts env body _ _ hbody hinner hvisits) b
  | .class _ elements, direct, outer, hbound, hnodup, hvisits, b => by
    rw [buildStmt]
    exact marked_exprs env elements direct outer hbound hnodup hvisits b
  | .expression expr, direct, outer, hbound, hnodup, hvisits, b => by
    rw [buildStmt]
    exact (markedModes_build env expr direct outer hbound hnodup hvisits).value b
  | .return argument, direct, outer, hbound, hnodup, hvisits, b => by
    rw [buildStmt]
    exact (marked_exprs env argument direct outer hbound hnodup hvisits b).trans (.of_eq rfl rfl)
  | .throw argument, direct, outer, hbound, hnodup, hvisits, b => by
    rw [buildStmt]
    exact ((markedModes_build env argument direct outer hbound hnodup hvisits).value b).trans
      (.of_eq rfl rfl)
  | .ite test consequent alternate, direct, outer, hbound, hnodup, hvisits, b => by
    rw [checkStmt, append_subset, append_subset] at hvisits
    rw [buildStmt]
    exact marked_buildFlowIf (markedModes_build env test direct outer hbound.1 hnodup hvisits.1.1)
      (marked_stmt env consequent direct outer hbound.2.1 hnodup hvisits.1.2)
      (marked_stmt env alternate direct outer hbound.2.2 hnodup hvisits.2) b
  | .block inner body, direct, outer, hbound, hnodup, hvisits, b => by
    obtain ⟨hscope, hinner⟩ := hbound.1.body hnodup
    have hbody := hbound.2
    rw [hscope] at hbody
    rw [checkStmt, hscope] at hvisits
    rw [buildStmt]
    exact marked_stmts env body _ _ hbody hinner hvisits b
  | .switch inner discriminant clauses, direct, outer, hbound, hnodup, hvisits, b => by
    obtain ⟨hscope, hinner⟩ := hbound.2.1.clauses hnodup
    have hclauses := hbound.2.2
    rw [hscope] at hclauses
    rw [checkStmt, append_subset, hscope] at hvisits
    have hvalue := (markedModes_build env discriminant direct outer hbound.1 hnodup hvisits.1).value b
    have hwalk := marked_clauses env clauses _ outer hclauses hinner hvisits.2
      ((buildModes env outer discriminant).value b).cursor (caseLabels env clauses)
      (fun symbol property occurrence h => (named_memberDiscriminant hnodup h).mono hvisits.1) none
      ((buildModes env outer discriminant).value b).pushSwitch
    have hleave (b : Builder) (edges : List FlowNodeId) :
        Marked (Named visits) b (b.popSwitch.joinAt edges) :=
      (Marked.of_eq (by rfl) (by rfl)).trans (Marked.joinAt edges)
    rw [buildStmt]
    exact hvalue.trans ((Marked.of_eq (by rfl) (by rfl)).trans (hwalk.trans (hleave _ _)))
  | .while test body, direct, outer, hbound, hnodup, hvisits, b => by
    rw [checkStmt, append_subset] at hvisits
    rw [buildStmt]
    exact marked_buildFlowWhile (markedModes_build env test direct outer hbound.1 hnodup hvisits.1)
      (marked_stmt env body direct outer hbound.2 hnodup hvisits.2) b
  | .labeled label body, direct, outer, hbound, hnodup, hvisits, b => by
    have hbody := marked_stmt env body direct outer hbound hnodup hvisits
      (b.pushLabel label (labeledStatementAllowsContinue body))
    have hleave (b : Builder) (edges : List FlowNodeId) :
        Marked (Named visits) b (b.popLabel.joinAt edges) :=
      (Marked.of_eq (by rfl) (by rfl)).trans (Marked.joinAt edges)
    rw [buildStmt]
    exact (Marked.of_eq (by rfl) (by rfl)).trans (hbody.trans (hleave _ _))
  | .break label, _, _, _, _, _, b => by
    rw [buildStmt]
    cases label with
    | none => exact (Marked.pushBreak _).trans (.of_eq rfl rfl)
    | some name => exact .of_eq rfl rfl
  | .continue label, _, _, _, _, _, b => by
    rw [buildStmt]
    unfold buildFlowContinue
    dsimp only
    split
    · exact (Marked.addBackEdge _ _).trans (.of_eq rfl rfl)
    · exact .of_eq rfl rfl
  | .empty, _, _, _, _, _, b => .refl b
  | .variable _ _, _, _, _, _, _, b => .refl b
  | .unbuilt _ _ _ _ _, _, _, _, _, _, b => .refl b

/-- **Every node that is built names a binding of the builder's scope.** -/
theorem marked_stmts (env : FlowEnv) : ∀ (stmts : List Stmt) (direct : List ScopeFrame)
    (outer : Scope), WellBoundStmts (direct ++ outer) stmts →
    ((direct ++ outer).map ScopeFrame.id).Nodup →
    checkStmts direct (direct ++ outer) stmts ⊆ visits →
    ∀ b, Marked (Named visits) b (buildStmts env outer stmts b)
  | [], _, _, _, _, _, b => .refl b
  | stmt :: rest, direct, outer, hbound, hnodup, hvisits, b => by
    rw [checkStmts, append_subset] at hvisits
    rw [buildStmts]
    exact (marked_stmt env stmt direct outer hbound.1 hnodup hvisits.1 b).trans
      (marked_stmts env rest direct outer hbound.2 hnodup hvisits.2 _)

theorem marked_clauses (env : FlowEnv) : ∀ (clauses : List Clause) (direct : List ScopeFrame)
    (outer : Scope), WellBoundClauses (direct ++ outer) clauses →
    ((direct ++ outer).map ScopeFrame.id).Nodup →
    checkClauses direct (direct ++ outer) clauses ⊆ visits →
    ∀ (pre : FlowNodeId) (labels : List TypeId) {discriminant : Option (SymbolId × Name × Occurrence)},
      (∀ symbol property occurrence, discriminant = some (symbol, property, occurrence) →
        Named visits occurrence symbol) →
      ∀ (fellThrough : Option FlowNodeId) (b : Builder), Marked (Named visits) b
        (buildClauses env outer pre discriminant labels clauses fellThrough b)
  | [], _, _, _, _, _, _, _, _, _, _, b => .refl b
  | .case test consequent :: rest, direct, outer, hbound, hnodup, hvisits, pre, labels, discriminant,
      hnamed, fellThrough, b => by
    rw [checkClauses, append_subset, append_subset] at hvisits
    rw [buildClauses]
    exact (marked_switchCaseEntry env pre labels (.case test consequent) hnamed b).trans
      ((marked_enterClause _ _ _).trans
        ((marked_stmts env consequent direct outer hbound.1 hnodup hvisits.1.2 _).trans
          (marked_clauses env rest direct outer hbound.2 hnodup hvisits.2 pre labels hnamed _ _)))
  | .default consequent :: rest, direct, outer, hbound, hnodup, hvisits, pre, labels, discriminant,
      hnamed, fellThrough, b => by
    rw [checkClauses, append_subset] at hvisits
    rw [buildClauses]
    exact (marked_switchCaseEntry env pre labels (.default consequent) hnamed b).trans
      ((marked_enterClause _ _ _).trans
        ((marked_stmts env consequent direct outer hbound.1 hnodup hvisits.1 _).trans
          (marked_clauses env rest direct outer hbound.2 hnodup hvisits.2 pre labels hnamed _ _)))

end

end Walk

/-! ## §6 The binding that the checker sees -/

/-- A name declared in one of the inner frames is found there. -/
theorem resolveValue_append_of_mem {direct : List ScopeFrame} (outer : Scope) {name : Name}
    (h : ∃ frame ∈ direct, name ∈ frame.names) :
    ∃ frame ∈ direct, Scope.resolveValue (direct ++ outer) name = some ⟨frame.id, name⟩ := by
  induction direct with
  | nil =>
    obtain ⟨frame, hframe, -⟩ := h
    cases hframe
  | cons first direct ih =>
    rw [cons_append, Scope.resolveValue]
    by_cases hname : name ∈ first.names
    · rw [if_pos hname]
      exact ⟨first, mem_cons_self, rfl⟩
    · rw [if_neg hname]
      obtain ⟨frame, hframe, hin⟩ := h
      rcases mem_cons.mp hframe with rfl | hframe
      · exact absurd hin hname
      · obtain ⟨found, hfound, hresolve⟩ := ih ⟨frame, hframe, hin⟩
        exact ⟨found, mem_cons_of_mem _ hfound, hresolve⟩

/-- The declaration that is found belongs to a frame of the scope. -/
theorem mem_of_resolveValue {name : Name} {symbol : SymbolId}
    (h : scope.resolveValue name = some symbol) : symbol.scope ∈ scope.map ScopeFrame.id := by
  induction scope with
  | nil => cases h
  | cons frame scope ih =>
    rw [Scope.resolveValue] at h
    split at h
    · cases h
      exact mem_cons_self
    · exact mem_cons_of_mem _ (ih h)

/-- The checker finds the binding of the outer scope unless an inner frame declares the name. -/
theorem resolveValue_append_iff {direct : List ScopeFrame} {outer : Scope} {name : Name}
    {symbol : SymbolId} (hnodup : ((direct ++ outer).map ScopeFrame.id).Nodup)
    (h : outer.resolveValue name = some symbol) :
    Scope.resolveValue (direct ++ outer) name = some symbol ↔
      ∀ frame ∈ direct, name ∉ frame.names := by
  refine ⟨?_, fun hdirect => (Scope.resolveValue_append outer hdirect).trans h⟩
  intro hresolve
  by_contra hmem
  push Not at hmem
  -- the number of the inner frame would be that of an outer one
  obtain ⟨frame, hframe, hfound⟩ := resolveValue_append_of_mem outer hmem
  have heq : frame.id = symbol.scope := by
    rw [hresolve, some.injEq] at hfound
    exact congrArg SymbolId.scope hfound.symm
  rw [map_append, nodup_append] at hnodup
  exact hnodup.2.2 _ (mem_map_of_mem hframe) _ (mem_of_resolveValue h) heq

/-- **When a node names the binding that the checker sees.**  For a program as the binder
leaves it, built in any state of the pre-pass: every assignment and condition node was made
for an occurrence that the checker visits, and it carries the symbol of the name in the scope
in which the checker checks the occurrence exactly if the name is not declared directly in
the clauses of a `switch` in which the occurrence directly stands.  A function without a scope
of its own, as in `c && (() => { x = null; })`, does not come in between. -/
theorem nodes_name_bindings (env : FlowEnv) (scope : Scope) (raw : List Stmt) (next : Nat)
    (hraw : areUnboundStmts raw = true) (hids : (scope.map ScopeFrame.id).Nodup)
    (hnext : Below scope next) (b : Builder)
    (hoccurrences : ((checkStmts [] scope (bindStmts scope raw next).1).map
      Visit.occurrence).Nodup) :
    ∀ (node : Nat) (row : FlowNode) (symbol : SymbolId), b.nodes.length ≤ node →
      (buildStmts env scope (bindStmts scope raw next).1 b).nodes[node]? = some row →
      row.symbol = some symbol →
      ∃ occurrence,
        (node, occurrence) ∈ (buildStmts env scope (bindStmts scope raw next).1 b).origins ∧
        (∃ visit ∈ checkStmts [] scope (bindStmts scope raw next).1,
          visit.occurrence = occurrence) ∧
        ∀ visit ∈ checkStmts [] scope (bindStmts scope raw next).1, visit.occurrence = occurrence →
          (visit.scope.resolveValue occurrence.name = some symbol ↔
            ∀ frame ∈ visit.direct, occurrence.name ∉ frame.names) := by
  intro node row symbol hnode hrow hsymbol
  have hbound := (wellBound_bindStmts raw scope next hraw hnext).1
  have hmarked := marked_stmts env (bindStmts scope raw next).1 [] scope hbound hids
    (List.Subset.refl _) b
  have hlength : b.symbols.length = b.nodes.length := length_map _
  obtain ⟨occurrence, horigin, visit, hvisit, hof, outer, hscope, hnodup, hresolve⟩ :=
    hmarked.made node symbol (hlength ▸ hnode)
      (by simp only [Builder.symbols, getElem?_map, hrow, map_some, hsymbol])
  refine ⟨occurrence, horigin, ⟨visit, hvisit, hof⟩, ?_⟩
  intro visit' hvisit' hof'
  obtain rfl : visit' = visit :=
    inj_on_of_nodup_map hoccurrences hvisit' hvisit (hof'.trans hof.symm)
  rw [hscope] at hnodup ⊢
  exact resolveValue_append_iff hnodup hresolve

/-- `{ let x; x = null; }` -/
def shadowingBlock : List Stmt :=
  [.block none [.variable false ["x"],
    .expression (.assignment .assign (.identifier 20 "x") .null)]]

/-- `switch (null) { default: let x; x = null; }` -/
def shadowingSwitch : List Stmt :=
  [.switch none .null [.default [.variable false ["x"],
    .expression (.assignment .assign (.identifier 20 "x") .null)]]]

/-- The node of the assignment in the block is about the variable of the block. -/
theorem nodes_name_bindings_block :
    areUnboundStmts shadowingBlock = true ∧ Below exampleScope 1 ∧
      ∃ occurrence,
        (2, occurrence) ∈ (buildStmts exampleEnv exampleScope
          (bindStmts exampleScope shadowingBlock 1).1 Builder.initial).origins ∧
        ∀ visit ∈ checkStmts [] exampleScope (bindStmts exampleScope shadowingBlock 1).1,
          visit.occurrence = occurrence →
          (visit.scope.resolveValue occurrence.name = some ⟨1, "x"⟩ ↔
            ∀ frame ∈ visit.direct, occurrence.name ∉ frame.names) := by
  have hnext : Below exampleScope 1 := by
    intro frame hframe
    rw [mem_singleton.mp hframe]
    decide
  obtain ⟨occurrence, horigin, -, hvisits⟩ := nodes_name_bindings exampleEnv exampleScope
    shadowingBlock 1 (by decide) (by decide) hnext Builder.initial (by decide) 2
    (.assignment ⟨1, "x"⟩ (some (.union {.other 5})) .start) ⟨1, "x"⟩ (by decide) rfl rfl
  exact ⟨by decide, hnext, occurrence, horigin, hvisits⟩

/-- **A variable declared in a `switch` clause.**  The assignment `x = null` in the clause is
checked in the scope of the `switch`, where `x` is the variable of the clause; its node
carries the outer `x`. -/
theorem switch_names_outer_binding :
    (buildStmts exampleEnv exampleScope (bindStmts exampleScope shadowingSwitch 1).1
      Builder.initial).nodes[(2 : Nat)]? =
        some (.assignment ⟨0, "x"⟩ (some (.union {.other 5})) .start) ∧
    (buildStmts exampleEnv exampleScope (bindStmts exampleScope shadowingSwitch 1).1
      Builder.initial).origins = [(2, ⟨20, "x"⟩)] ∧
    (checkStmts [] exampleScope (bindStmts exampleScope shadowingSwitch 1).1).map
      (fun visit => (visit.occurrence, visit.scope.resolveValue visit.occurrence.name)) =
        [(⟨20, "x"⟩, some ⟨1, "x"⟩)] := by
  refine ⟨rfl, rfl, ?_⟩
  decide

end Typokat.Check
