import Typokat.Check.FlowExec

/-!
# Symbols That the Flow Builder Keeps in Sight

The builder has arms for some forms and skips the others.  An execution and the graph diverge
where a skipped form assigns a symbol and where the right side of a logical assignment, which
the builder walks, is skipped.  The jumps and scopes of a construct are tracked when they are
the same for both.

## Main Results

- `Event.diverges` : where the execution and the graph diverge
- `TrackedStmt` : the jumps and scopes of a construct are tracked
- `evaluable` : every expression has an execution
- `Evaluates.among` : executions are about the symbols that the expression names
-/

namespace Typokat.Check

open Types

/-! ## §1 Symbols that stay in sight -/

/-- An assignment to or a guard on one of the symbols. -/
def Event.about (rel : SymbolId → Bool) : Event → Bool
  | .assign symbol _ => rel symbol
  | .guard symbol _ _ => rel symbol
  | _ => false

/-- Here the execution and the graph diverge, with respect to one of the symbols. -/
def Event.diverges (rel : SymbolId → Bool) : Event → Bool
  | .hidden symbol => rel symbol
  | .skipped symbol => rel symbol
  | _ => false

mutual

/-- No jump leaves a form that the builder skips, and no `switch` declares a variable of the
same name directly in its clauses: the builder walks these in the scope around the `switch`. -/
def TrackedStmt (rel : SymbolId → Bool) (scope : Scope) : Stmt → Prop
  | .ite _ consequent alternate => TrackedStmt rel scope consequent ∧ TrackedStmt rel scope alternate
  | .block inner body => TrackedStmts rel (inner.getD scope) body
  | .switch inner _ clauses =>
    (∃ frame : ScopeFrame, inner = some (frame :: scope) ∧
      ∀ symbol, rel symbol = true → symbol.name ∉ frame.names) ∧
      TrackedClauses rel (inner.getD scope) clauses
  | .while _ body => TrackedStmt rel scope body
  | .labeled _ body => TrackedStmt rel scope body
  | .unbuilt form inner names parts bodies => (Stmt.unbuilt form inner names parts bodies).jumps = []
  | _ => True

def TrackedStmts (rel : SymbolId → Bool) (scope : Scope) : List Stmt → Prop
  | [] => True
  | stmt :: rest => TrackedStmt rel scope stmt ∧ TrackedStmts rel scope rest

def TrackedClauses (rel : SymbolId → Bool) (scope : Scope) : List Clause → Prop
  | [] => True
  | .case _ consequent :: rest => TrackedStmts rel scope consequent ∧ TrackedClauses rel scope rest
  | .default consequent :: rest => TrackedStmts rel scope consequent ∧ TrackedClauses rel scope rest

end

/-! ## §2 Every expression can be evaluated -/

section Evaluations

variable (env : FlowEnv) (scope : Scope)

/-- An expression has a value, and may come out either way as a test. -/
def Evaluable (expr : Expr) : Prop :=
  (∃ events, Evaluates env scope (.value expr) events) ∧
    ∀ result, ∃ events, Evaluates env scope (.test expr result) events

theorem writes_nil (symbols : List SymbolId) : Writes symbols [] :=
  fun _ h => absurd h (List.not_mem_nil)

variable {env scope}

theorem evaluable_leaf {expr : Expr} (hleaf : expr.isLeaf = true)
    (h : ∃ events, Evaluates env scope (.value expr) events) : Evaluable env scope expr := by
  obtain ⟨events, h⟩ := h
  exact ⟨⟨events, h⟩, fun result => ⟨_, .leaf result hleaf h⟩⟩

theorem evaluable_logical {left right : Expr} (hleft : Evaluable env scope left)
    (hright : Evaluable env scope right) (op : LogicalOperator) :
    Evaluable env scope (.logical op left right) := by
  have htest : ∀ result, ∃ events,
    Evaluates env scope (.test (.logical op left right) result) events := by
    intro result
    cases op with
    | and =>
      obtain ⟨first, hfirst⟩ := hleft.2 true
      obtain ⟨second, hsecond⟩ := hright.2 result
      exact ⟨_, .andTrue hfirst hsecond⟩
    | or =>
      obtain ⟨first, hfirst⟩ := hleft.2 false
      obtain ⟨second, hsecond⟩ := hright.2 result
      exact ⟨_, .orFalse hfirst hsecond⟩
    | coalesce =>
      obtain ⟨first, hfirst⟩ := hleft.1
      exact ⟨_, .coalesceLeft result hfirst⟩
  obtain ⟨events, h⟩ := htest true
  exact ⟨⟨events, .logical h⟩, htest⟩

mutual

theorem exists_target : ∀ target : Expr, ∃ events, Evaluates env scope (.target target) events
  | .identifier span name => ⟨_, .targetIdentifier span name⟩
  | .operands .array parts => (exists_targets parts).imp (fun _ h => .targetArray h)
  | .operands .object parts => (exists_targets parts).imp (fun _ h => .targetObject h)
  | .assignment .assign target _ =>
    (exists_target target).imp (fun _ h => .targetDefault (writes_nil _) h)
  | .operands .call _ | .operands .new _ | .operands .computedMember _ | .operands .sequence _
  | .operands .assertion _ | .assignment .arithmetic _ _ | .assignment .logical _ _ | .literal _
  | .null | .paren _ | .unary _ _ | .binary _ _ _ | .logical _ _ _ | .conditional _ _ _
  | .staticMember _ _ _ | .function _ _ _ | .arrow _ _ _ | .initializer _ _ | .update _
  | .unbuilt _ =>
    ⟨[], .targetOther rfl (writes_nil _)⟩

theorem exists_targets :
    ∀ targets : List Expr, ∃ events, Evaluates env scope (.targets targets) events
  | [] => ⟨[], .targetsNil⟩
  | target :: rest => by
    obtain ⟨first, hfirst⟩ := exists_target target
    obtain ⟨second, hsecond⟩ := exists_targets rest
    exact ⟨_, .targetsCons hfirst hsecond⟩

end

mutual

theorem evaluable : ∀ expr : Expr, Evaluable env scope expr
  | .identifier span name => evaluable_leaf rfl ⟨_, .identifier span name⟩
  | .literal value => evaluable_leaf rfl ⟨_, .literal value⟩
  | .null => evaluable_leaf rfl ⟨_, .null⟩
  | .paren inner =>
    ⟨(evaluable inner).1.imp (fun _ h => .paren h),
      fun result => ((evaluable inner).2 result).imp (fun _ h => .testParen h)⟩
  | .unary .logicalNot argument =>
    ⟨(evaluable argument).1.imp (fun _ h => .unary h),
      fun result => ((evaluable argument).2 (!result)).imp (fun _ h => .testNot h)⟩
  | .unary .typeof argument =>
    evaluable_leaf rfl ((evaluable argument).1.imp (fun _ h => .unary h))
  | .unary .other argument =>
    evaluable_leaf rfl ((evaluable argument).1.imp (fun _ h => .unary h))
  | .binary op left right => by
    obtain ⟨first, hfirst⟩ := (evaluable left).1
    obtain ⟨second, hsecond⟩ := (evaluable right).1
    exact evaluable_leaf rfl ⟨_, .binary hfirst hsecond⟩
  | .logical op left right => evaluable_logical (evaluable left) (evaluable right) op
  | .conditional test consequent alternate => by
    obtain ⟨first, hfirst⟩ := (evaluable test).2 true
    obtain ⟨second, hsecond⟩ := (evaluable consequent).1
    exact evaluable_leaf rfl ⟨_, .conditional hfirst hsecond⟩
  | .assignment op target right => by
    obtain ⟨first, hfirst⟩ := (evaluable right).1
    obtain ⟨second, hsecond⟩ := exists_target target
    refine evaluable_leaf rfl ?_
    by_cases hop : op = .logical
    · subst hop
      exact ⟨_, .logicalAssign hfirst hsecond⟩
    · by_cases htarget : ∃ span name, target = .identifier span name
      · obtain ⟨span, name, rfl⟩ := htarget
        exact ⟨_, .assign span name hop hfirst⟩
      · push Not at htarget
        exact ⟨_, .destructure htarget hop hfirst hsecond⟩
  | .staticMember object property optional =>
    evaluable_leaf rfl ((evaluable object).1.imp (fun _ h => .staticMember h))
  | .operands form parts =>
    evaluable_leaf rfl ((exists_values parts).imp (fun _ h => .operands h))
  | .function inner params body => evaluable_leaf rfl ⟨_, .function inner params body⟩
  | .arrow inner params body => evaluable_leaf rfl ⟨_, .arrow inner params body⟩
  | .initializer _ _ => evaluable_leaf rfl ⟨_, .initializer (writes_nil _)⟩
  | .update _ => evaluable_leaf rfl ⟨_, .update (writes_nil _)⟩
  | .unbuilt _ => evaluable_leaf rfl ⟨_, .unbuilt (writes_nil _)⟩

theorem exists_values :
    ∀ exprs : List Expr, ∃ events, Evaluates env scope (.values exprs) events
  | [] => ⟨[], .nil⟩
  | expr :: rest => by
    obtain ⟨first, hfirst⟩ := (evaluable expr).1
    obtain ⟨second, hsecond⟩ := exists_values rest
    exact ⟨_, .cons hfirst hsecond⟩

end

/-! ## §3 What an evaluation is about -/

/-- The symbols that evaluating can be about. -/
def EvalTask.touched (env : FlowEnv) (scope : Scope) : EvalTask → List SymbolId
  | .value expr => (touchedExpr env scope expr).value
  | .values exprs => touchedExprs env scope exprs
  | .test expr _ => (touchedExpr env scope expr).test
  | .target pattern => assignedTarget scope pattern
  | .targets patterns => assignedTargets scope patterns

/-- An event about one of the symbols of a list. -/
def Event.among (symbols : List SymbolId) : Event → Prop
  | .assign symbol _ => symbol ∈ symbols
  | .guard symbol _ _ => symbol ∈ symbols
  | .reference _ => True
  | .hidden symbol => symbol ∈ symbols
  | .skipped symbol => symbol ∈ symbols

theorem Event.among_mono {symbols symbols' : List SymbolId} (hsub : symbols ⊆ symbols')
    {event : Event} (h : event.among symbols) : event.among symbols' := by
  cases event with
  | assign symbol assigned => exact hsub h
  | guard symbol op positive => exact hsub h
  | reference span => trivial
  | hidden symbol => exact hsub h
  | skipped symbol => exact hsub h

theorem among_of_writes {symbols : List SymbolId} {events : List Event} (h : Writes symbols events) :
    ∀ event ∈ events, event.among symbols := by
  intro event hevent
  obtain ⟨symbol, hsymbol, rfl⟩ := h event hevent
  exact hsymbol

theorem among_append {symbols symbols₁ symbols₂ : List SymbolId} {first second : List Event}
    (h₁ : ∀ event ∈ first, event.among symbols₁) (h₂ : ∀ event ∈ second, event.among symbols₂)
    (hsub₁ : symbols₁ ⊆ symbols) (hsub₂ : symbols₂ ⊆ symbols) :
    ∀ event ∈ first ++ second, event.among symbols := by
  intro event hevent
  rcases List.mem_append.mp hevent with hevent | hevent
  · exact Event.among_mono hsub₁ (h₁ event hevent)
  · exact Event.among_mono hsub₂ (h₂ event hevent)

theorem among_writeEvents (span : Span) (name : Name) (assigned : Option FlowType) :
    ∀ event ∈ writeEvents scope name assigned,
      event.among (assignedTarget scope (.identifier span name)) := by
  unfold writeEvents assignedTarget
  cases scope.resolveValue name <;> simp [Event.among]

theorem among_guardEvents (fact : Option GuardFact) (result : Bool) :
    ∀ event ∈ guardEvents fact result, event.among (fact.map GuardFact.symbol).toList := by
  cases fact <;> simp [guardEvents, Event.among]

theorem among_skipped (symbols : List SymbolId) :
    ∀ event ∈ symbols.map Event.skipped, event.among symbols := by
  intro event hevent
  obtain ⟨symbol, hsymbol, rfl⟩ := List.mem_map.mp hevent
  exact hsymbol

/-- Evaluating is about no other symbols. -/
theorem Evaluates.among {task : EvalTask} {events : List Event}
    (h : Evaluates env scope task events) :
    ∀ event ∈ events, event.among (task.touched env scope) := by
  induction h with
  | identifier span name => simp [Event.among]
  | literal | null | function | arrow | nil | targetsNil => simp
  | paren _ ih | staticMember _ ih | operands _ ih | testParen _ ih | testNot _ ih
  | targetArray _ ih | targetObject _ ih => exact ih
  | @unary op argument events _ ih => cases op <;> exact ih
  | @logical op left right result events _ ih => cases op <;> exact ih
  -- two parts one after the other
  | binary _ _ ih₁ ih₂ | destructure _ _ _ _ ih₁ ih₂ | logicalAssign _ _ ih₁ ih₂ =>
    exact among_append ih₁ ih₂ (by simp [EvalTask.touched, touchedExpr, Touched.leaf])
      (by simp [EvalTask.touched, touchedExpr, Touched.leaf])
  | andTrue _ _ ih₁ ih₂ | orFalse _ _ ih₁ ih₂ | coalesceRight _ _ _ ih₁ ih₂ =>
    exact among_append ih₁ ih₂ (by simp [EvalTask.touched, touchedExpr])
      (by simp [EvalTask.touched, touchedExpr])
  | cons _ _ ih₁ ih₂ =>
    exact among_append ih₁ ih₂ (by simp [EvalTask.touched, touchedExprs])
      (by simp [EvalTask.touched, touchedExprs])
  | targetsCons _ _ ih₁ ih₂ =>
    exact among_append ih₁ ih₂ (by simp [EvalTask.touched, assignedTargets])
      (by simp [EvalTask.touched, assignedTargets])
  -- the second part is not evaluated
  | andFalse _ ih | orTrue _ ih | coalesceLeft _ _ ih =>
    exact fun event hevent =>
      Event.among_mono (by simp [EvalTask.touched, touchedExpr]) (ih event hevent)
  | logicalSkip right _ ih =>
    exact among_append (among_skipped _) ih
      (by simp [EvalTask.touched, touchedExpr, Touched.leaf])
      (by simp [EvalTask.touched, touchedExpr, Touched.leaf])
  | @conditional test consequent alternate result first second _ _ ih₁ ih₂ =>
    refine among_append ih₁ ih₂ ?_ ?_
    · simp [EvalTask.touched, touchedExpr, Touched.leaf]
    · cases result <;> simp [EvalTask.touched, touchedExpr, Touched.leaf]
  | assign span name _ _ ih =>
    exact among_append ih (among_writeEvents span name _)
      (by simp [EvalTask.touched, touchedExpr, Touched.leaf])
      (by simp [EvalTask.touched, touchedExpr, Touched.leaf])
  | initializer hwrites | update hwrites | unbuilt hwrites | targetOther _ hwrites =>
    exact among_of_writes hwrites
  | @leaf expr events result hleaf _ ih =>
    -- a guard is about a symbol of the test
    have htest : (touchedExpr env scope expr).test = (touchedExpr env scope expr).value ++
        ((analyzeGuard env scope expr).map GuardFact.symbol).toList := by
      cases expr with
      | paren inner => simp [Expr.isLeaf] at hleaf
      | logical op left right => simp [Expr.isLeaf] at hleaf
      | unary op argument =>
        cases op with
        | logicalNot => simp [Expr.isLeaf] at hleaf
        | typeof => rfl
        | other => rfl
      | _ => rfl
    show ∀ event ∈ _, Event.among (touchedExpr env scope expr).test event
    rw [htest]
    exact among_append ih (among_guardEvents _ result) (by simp [EvalTask.touched]) (by simp)
  | targetIdentifier span name => exact among_writeEvents span name none
  | targetDefault hwrites _ ih =>
    exact among_append (among_of_writes hwrites) ih (by simp [EvalTask.touched, assignedTarget])
      (by simp [EvalTask.touched, assignedTarget])

/-- Events about other symbols. -/
theorem about_eq_false {rel : SymbolId → Bool} {symbols : List SymbolId} {event : Event}
    (huntouched : ∀ symbol ∈ symbols, rel symbol = false) (h : event.among symbols) :
    event.about rel = false ∧ event.diverges rel = false := by
  cases event with
  | assign symbol assigned => exact ⟨huntouched symbol h, rfl⟩
  | guard symbol op positive => exact ⟨huntouched symbol h, rfl⟩
  | reference span => exact ⟨rfl, rfl⟩
  | hidden symbol => exact ⟨rfl, huntouched symbol h⟩
  | skipped symbol => exact ⟨rfl, huntouched symbol h⟩

end Evaluations

end Typokat.Check
