import Typokat.Check.FlowNodes

/-!
# Statements, Expressions and Scopes (`oxc_ast`, `typokat-binder/src/binder/bind.rs`)

The syntax that the flow builder and the statement checker walk, and the scopes that the
binder makes for it.

The binder keys the scopes it makes by the span of the construct, and both walks look them
up by that span; spans of distinct constructs are distinct, so the entry is a field of the
construct here, `none` until the binder has been there.  Constructs that the flow builder
treats alike are one constructor with a tag.

## Main Results

- `Scope.resolveValue_append` : a name that the inner frames do not declare is looked up outside
- `bindStmt` : the binder over one statement
-/

namespace Typokat.Check

open Types

/-! ## §1 Scopes -/

abbrev Span := Nat

abbrev Name := String

/-- One scope of the scope graph: its number and the value names declared in it. -/
structure ScopeFrame where
  id : Nat
  names : List Name
  deriving DecidableEq, Repr

/-- A scope with its chain of lexical parents. -/
abbrev Scope := List ScopeFrame

namespace Scope

/-- `Binder::resolve_value`: the innermost declaration of the name. -/
def resolveValue : Scope → Name → Option SymbolId
  | [], _ => none
  | frame :: parents, name =>
    if name ∈ frame.names then some ⟨frame.id, name⟩ else resolveValue parents name

theorem resolveValue_append {inner : List ScopeFrame} (outer : Scope) {name : Name}
    (h : ∀ frame ∈ inner, name ∉ frame.names) :
    resolveValue (inner ++ outer) name = resolveValue outer name := by
  induction inner with
  | nil => rfl
  | cons frame inner ih =>
    rw [List.cons_append, resolveValue, if_neg (h frame List.mem_cons_self)]
    exact ih (fun frame' hframe => h frame' (List.mem_cons_of_mem _ hframe))

end Scope

/-! ## §2 Syntax -/

inductive UnaryOperator
  | logicalNot
  | typeof
  | other
  deriving DecidableEq, Repr

inductive BinaryOperator
  | equality
  | inequality
  | strictEquality
  | strictInequality
  | «in»
  | other
  deriving DecidableEq, Repr

inductive LogicalOperator
  | and
  | or
  | coalesce
  deriving DecidableEq, Repr

inductive AssignmentOperator
  | assign
  /-- `+=`, `-=` and the others that always assign -/
  | arithmetic
  /-- `||=`, `&&=` and `??=`, which may leave the right operand unevaluated -/
  | logical
  deriving DecidableEq, Repr

/-- Expression forms whose operands the builder walks in order and that are no guards. -/
inductive OperandForm
  | call
  | new
  | computedMember
  | object
  | array
  | sequence
  /-- `e as T` and `<T>e` -/
  | assertion
  deriving DecidableEq, Repr

/-- The forms with an arm in `bind_expression`. -/
def OperandForm.isBound : OperandForm → Bool
  | computedMember => false
  | sequence => false
  | _ => true

/-- Statement forms that the builder leaves out. -/
inductive UnbuiltForm
  | forLoop
  | forIn
  | forOf
  | doWhile
  | tryStatement
  | catchClause
  | withStatement
  /-- static blocks, heritage clauses and computed keys of classes, default exports, … -/
  | other
  deriving DecidableEq, Repr

namespace UnbuiltForm

/-- The binder makes a scope for the head of the form. -/
def hasHead : UnbuiltForm → Bool
  | forLoop => true
  | forIn => true
  | forOf => true
  | catchClause => true
  | _ => false

/-- An unlabeled `break` or `continue` inside the form is about the form. -/
def isLoop : UnbuiltForm → Bool
  | forLoop => true
  | forIn => true
  | forOf => true
  | doWhile => true
  | _ => false

end UnbuiltForm

mutual

/-- Expressions.  An assignment target is the expression that covers it: an identifier, a
member access, an array or object of targets, and `target = default` for an element with a
default. -/
inductive Expr
  | identifier (span : Span) (name : Name)
  | literal (value : LiteralValue)
  | null
  | paren (inner : Expr)
  | unary (op : UnaryOperator) (argument : Expr)
  | binary (op : BinaryOperator) (left right : Expr)
  | logical (op : LogicalOperator) (left right : Expr)
  | conditional (test consequent alternate : Expr)
  | assignment (op : AssignmentOperator) (target right : Expr)
  | staticMember (object : Expr) (property : Name) (optional : Bool)
  | operands (form : OperandForm) (parts : List Expr)
  | function (scope : Option Scope) (params : List Name) (body : List Stmt)
  /-- an arrow with an expression body; one with statements is a `function` -/
  | arrow (scope : Option Scope) (params : List Name) (body : Expr)
  /-- the initializer of a class field -/
  | initializer (isStatic : Bool) (value : Expr)
  /-- `++` and `--` -/
  | update (argument : Expr)
  /-- a form without an arm in the builder: templates, `await`, spreads, optional chains,
  computed keys, non-null assertions, class expressions, … -/
  | unbuilt (parts : List Expr)

/-- Statements.  A missing `else` is the empty statement; a declaration with several
declarators is a statement for each; the head of `for (x of xs)` is the part `x = xs`. -/
inductive Stmt
  | empty
  | «variable» (isVar : Bool) (names : List Name)
  | declaration (isVar : Bool) (names : List Name) (init : Expr)
  | function (name : Name) (scope : Option Scope) (params : List Name) (body : List Stmt)
  /-- methods are `function`s, fields are `initializer`s -/
  | «class» (name : Name) (elements : List Expr)
  | expression (expr : Expr)
  /-- with at most one argument -/
  | «return» (argument : List Expr)
  | throw (argument : Expr)
  | ite (test : Expr) (consequent alternate : Stmt)
  | block (scope : Option Scope) (body : List Stmt)
  | «switch» (scope : Option Scope) (discriminant : Expr) (clauses : List Clause)
  | «while» (test : Expr) (body : Stmt)
  | labeled (label : Name) (body : Stmt)
  | «break» (label : Option Name)
  | «continue» (label : Option Name)
  | unbuilt (form : UnbuiltForm) (scope : Option Scope) (names : List Name) (parts : List Expr)
      (bodies : List Stmt)

/-- A clause of a `switch`. -/
inductive Clause
  | case (test : Expr) (consequent : List Stmt)
  | «default» (consequent : List Stmt)

end

namespace Clause

def consequent : Clause → List Stmt
  | case _ consequent => consequent
  | default consequent => consequent

end Clause

/-! ## §3 The binder -/

mutual

/-- The names a statement declares in the scope it stands in (`let`, `const`, functions and
classes). -/
def Stmt.lexicalNames : Stmt → List Name
  | .variable isVar names => if isVar then [] else names
  | .declaration isVar names _ => if isVar then [] else names
  | .function name _ _ _ => [name]
  | .class name _ => [name]
  | .ite _ consequent alternate => consequent.lexicalNames ++ alternate.lexicalNames
  | .while _ body => body.lexicalNames
  | .labeled _ body => body.lexicalNames
  | .unbuilt form _ _ _ bodies => if form.hasHead then [] else lexicalNamesList bodies
  | _ => []

def lexicalNamesList : List Stmt → List Name
  | [] => []
  | stmt :: rest => stmt.lexicalNames ++ lexicalNamesList rest

end

mutual

/-- The `var` names of a statement, which go to the nearest function. -/
def Stmt.varNames : Stmt → List Name
  | .variable isVar names => if isVar then names else []
  | .declaration isVar names _ => if isVar then names else []
  | .ite _ consequent alternate => consequent.varNames ++ alternate.varNames
  | .block _ body => varNamesList body
  | .switch _ _ clauses => varNamesClauses clauses
  | .while _ body => body.varNames
  | .labeled _ body => body.varNames
  | .unbuilt _ _ _ _ bodies => varNamesList bodies
  | _ => []

def varNamesList : List Stmt → List Name
  | [] => []
  | stmt :: rest => stmt.varNames ++ varNamesList rest

def varNamesClauses : List Clause → List Name
  | [] => []
  | .case _ consequent :: rest => varNamesList consequent ++ varNamesClauses rest
  | .default consequent :: rest => varNamesList consequent ++ varNamesClauses rest

end

/-- The names declared directly in the clauses of a `switch`, which share one scope. -/
def lexicalNamesClauses (clauses : List Clause) : List Name :=
  clauses.flatMap (fun clause => lexicalNamesList clause.consequent)

mutual

/-- `bind_expression`: the scopes of the functions in an expression.  Operators, conditionals,
sequences, computed members, updates and assignment targets have no arm, so a function in one
of their operands gets no scope; what the binder makes in a class expression is left out, the
builder does not walk it.  The counter is the number of scopes pushed so far. -/
def bindExpr (scope : Scope) : Expr → Nat → Expr × Nat
  | .paren inner, next =>
    let (inner, next) := bindExpr scope inner next
    (.paren inner, next)
  | .assignment op target right, next =>
    let (right, next) := bindExpr scope right next
    (.assignment op target right, next)
  | .staticMember object property optional, next =>
    let (object, next) := bindExpr scope object next
    (.staticMember object property optional, next)
  | .operands form parts, next =>
    if form.isBound then
      let (parts, next) := bindExprs scope parts next
      (.operands form parts, next)
    else (.operands form parts, next)
  | .function _ params body, next =>
    let inner : Scope := ⟨next, params ++ lexicalNamesList body ++ varNamesList body⟩ :: scope
    let (body, next) := bindStmts inner body (next + 1)
    (.function (some inner) params body, next)
  | .arrow _ params body, next =>
    let inner : Scope := ⟨next, params⟩ :: scope
    let (body, next) := bindExpr inner body (next + 1)
    (.arrow (some inner) params body, next)
  | .initializer isStatic value, next =>
    let (value, next) := bindExpr scope value next
    (.initializer isStatic value, next)
  | expr, next => (expr, next)

def bindExprs (scope : Scope) : List Expr → Nat → List Expr × Nat
  | [], next => ([], next)
  | expr :: rest, next =>
    let (expr, next) := bindExpr scope expr next
    let (rest, next) := bindExprs scope rest next
    (expr :: rest, next)

/-- `bind_statement`.  The operand of a `throw` is not bound. -/
def bindStmt (scope : Scope) : Stmt → Nat → Stmt × Nat
  | .declaration isVar names init, next =>
    let (init, next) := bindExpr scope init next
    (.declaration isVar names init, next)
  | .function name _ params body, next =>
    let inner : Scope := ⟨next, params ++ lexicalNamesList body ++ varNamesList body⟩ :: scope
    let (body, next) := bindStmts inner body (next + 1)
    (.function name (some inner) params body, next)
  | .class name elements, next =>
    let (elements, next) := bindExprs scope elements next
    (.class name elements, next)
  | .expression expr, next =>
    let (expr, next) := bindExpr scope expr next
    (.expression expr, next)
  | .return argument, next =>
    let (argument, next) := bindExprs scope argument next
    (.return argument, next)
  | .ite test consequent alternate, next =>
    let (test, next) := bindExpr scope test next
    let (consequent, next) := bindStmt scope consequent next
    let (alternate, next) := bindStmt scope alternate next
    (.ite test consequent alternate, next)
  | .block _ body, next =>
    let inner : Scope := ⟨next, lexicalNamesList body⟩ :: scope
    let (body, next) := bindStmts inner body (next + 1)
    (.block (some inner) body, next)
  | .switch _ discriminant clauses, next =>
    let (discriminant, next) := bindExpr scope discriminant next
    let inner : Scope := ⟨next, lexicalNamesClauses clauses⟩ :: scope
    let (clauses, next) := bindClauses inner clauses (next + 1)
    (.switch (some inner) discriminant clauses, next)
  | .while test body, next =>
    let (test, next) := bindExpr scope test next
    let (body, next) := bindStmt scope body next
    (.while test body, next)
  | .labeled label body, next =>
    let (body, next) := bindStmt scope body next
    (.labeled label body, next)
  | .unbuilt form _ names parts bodies, next =>
    if form.hasHead then
      let inner : Scope := ⟨next, names ++ lexicalNamesList bodies⟩ :: scope
      let (parts, next) := bindExprs inner parts (next + 1)
      let (bodies, next) := bindStmts inner bodies next
      (.unbuilt form (some inner) names parts bodies, next)
    else
      let (parts, next) := bindExprs scope parts next
      let (bodies, next) := bindStmts scope bodies next
      (.unbuilt form none names parts bodies, next)
  | stmt, next => (stmt, next)

def bindStmts (scope : Scope) : List Stmt → Nat → List Stmt × Nat
  | [], next => ([], next)
  | stmt :: rest, next =>
    let (stmt, next) := bindStmt scope stmt next
    let (rest, next) := bindStmts scope rest next
    (stmt :: rest, next)

def bindClauses (scope : Scope) : List Clause → Nat → List Clause × Nat
  | [], next => ([], next)
  | .case test consequent :: rest, next =>
    let (test, next) := bindExpr scope test next
    let (consequent, next) := bindStmts scope consequent next
    let (rest, next) := bindClauses scope rest next
    (.case test consequent :: rest, next)
  | .default consequent :: rest, next =>
    let (consequent, next) := bindStmts scope consequent next
    let (rest, next) := bindClauses scope rest next
    (.default consequent :: rest, next)

end

end Typokat.Check
