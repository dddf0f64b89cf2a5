import Typokat.Check.FlowBuild

/-!
# The Name That a Guard Is About

A guard analysis tries several forms, each in both operand orders, and goes on to the next
form when a name is not in scope.  All the same it depends on the declaration of one name
only, which the shape of the test determines: the forms exclude each other.

## Main Results

- `Agree.frame` : a frame that declares none of the names does not matter
- `oneName_analyzeGuard` : a guard is about one name
-/

namespace Typokat.Check

open Types

/-! ## §1 Scopes that agree on some symbols -/

/-- Both scopes find the symbols under the same names. -/
def Agree (rel : SymbolId → Bool) (scope scope' : Scope) : Prop :=
  ∀ name symbol, rel symbol = true →
    (scope.resolveValue name = some symbol ↔ scope'.resolveValue name = some symbol)

theorem Agree.refl (rel : SymbolId → Bool) (scope : Scope) : Agree rel scope scope :=
  fun _ _ _ => .rfl

theorem name_of_resolveValue {scope : Scope} {name : Name} {symbol : SymbolId}
    (h : scope.resolveValue name = some symbol) : symbol.name = name := by
  induction scope with
  | nil => cases h
  | cons frame scope ih =>
    rw [Scope.resolveValue] at h
    split at h
    · cases h
      rfl
    · exact ih h

/-- A frame that does not declare the names of the symbols. -/
theorem Agree.frame {rel : SymbolId → Bool} {scope scope' : Scope} (h : Agree rel scope scope')
    {frame : ScopeFrame} (hframe : ∀ symbol, rel symbol = true → symbol.name ∉ frame.names) :
    Agree rel (frame :: scope) scope' := by
  intro name symbol hrel
  rw [Scope.resolveValue]
  split
  · rename_i hname
    refine ⟨?_, ?_⟩
    · intro hframed
      cases hframed
      exact absurd hname (hframe _ hrel)
    · intro hresolve
      rw [← name_of_resolveValue hresolve] at hname
      exact absurd hname (hframe symbol hrel)
  · exact h name symbol hrel

/-! ## §2 The name of a guard -/

/-- What is analyzed depends on where one name is declared. -/
def OneName (analyze : Scope → Option GuardFact) : Prop :=
  (∀ scope, analyze scope = none) ∨
    ∃ (name : Name) (fact : SymbolId → GuardFact), (∀ symbol, (fact symbol).symbol = symbol) ∧
      ∀ scope, analyze scope = (Scope.resolveValue scope name).map fact

theorem conditionSymbol_cases (expr : Expr) :
    (∀ scope, conditionSymbol scope expr = none) ∨
      ∃ span name, expr = .identifier span name ∧ name ≠ "undefined" ∧
        ∀ scope, conditionSymbol scope expr =
          (Scope.resolveValue scope name).map (fun symbol => (symbol, ⟨span, name⟩)) := by
  cases expr with
  | identifier span name =>
    by_cases hname : name = "undefined"
    · exact .inl (fun scope => by simp [conditionSymbol, hname])
    · exact .inr ⟨span, name, rfl, hname, fun scope => by simp [conditionSymbol, hname]⟩
  | _ => exact .inl (fun scope => rfl)

theorem memberDiscriminant_cases (expr : Expr) :
    (∀ scope, memberDiscriminant scope expr = none) ∨
      ∃ object property optional span name, expr = .staticMember object property optional ∧
        ∀ scope, memberDiscriminant scope expr =
          (Scope.resolveValue scope name).map
            (fun symbol => (symbol, property, ⟨span, name⟩)) := by
  cases expr with
  | staticMember object property optional =>
    cases optional with
    | true => exact .inl (fun scope => rfl)
    | false =>
      rcases conditionSymbol_cases object with hnone | ⟨span, name, rfl, -, hsome⟩
      · exact .inl (fun scope => by simp [memberDiscriminant, hnone scope])
      · refine .inr ⟨_, property, false, span, name, rfl, ?_⟩
        intro scope
        simp [memberDiscriminant, hsome scope, Option.map_map, Function.comp_def]
  | _ => exact .inl (fun scope => rfl)

variable (left right : Expr)

theorem typeofGuard_cases (positive : Bool) :
    (∀ scope, typeofGuard scope left right positive = none) ∨
      (∃ argument literal, left = .unary .typeof argument ∧ right = .literal (.string literal)) ∧
        OneName (fun scope => typeofGuard scope left right positive) := by
  by_cases hshape : ∃ argument literal,
      left = .unary .typeof argument ∧ right = .literal (.string literal)
  · refine .inr ⟨hshape, ?_⟩
    obtain ⟨argument, literal, rfl, rfl⟩ := hshape
    rcases conditionSymbol_cases argument with hnone | ⟨span, name, rfl, -, hsome⟩
    · exact .inl (fun scope => by simp [typeofGuard, hnone scope])
    · cases htag : TypeofTag.fromTagLiteral literal with
      | none => exact .inl (fun scope => by simp [typeofGuard, htag])
      | some tag =>
        refine .inr ⟨name, fun symbol => ⟨symbol, .typeof tag, positive, ⟨span, name⟩⟩,
          fun _ => rfl, ?_⟩
        intro scope
        cases hresolve : Scope.resolveValue scope name <;>
          simp [typeofGuard, htag, hsome scope, hresolve]
  · refine .inl ?_
    intro scope
    unfold typeofGuard
    split
    · exact absurd ⟨_, _, rfl, rfl⟩ hshape
    · rfl

theorem nullishGuard_cases (positive : Bool) :
    (∀ scope, nullishGuard scope left right positive = none) ∨
      (∃ span name, left = .identifier span name ∧ name ≠ "undefined") ∧
      (right = .null ∨ ∃ span, right = .identifier span "undefined") ∧
        OneName (fun scope => nullishGuard scope left right positive) := by
  rcases conditionSymbol_cases left with hnone | ⟨span, name, rfl, hname, hsome⟩
  · exact .inl (fun scope => by simp [nullishGuard, hnone scope])
  have hone : ∀ isUndefined, (∀ scope, nullishGuard scope (.identifier span name) right positive =
      (Scope.resolveValue scope name).map
        (fun symbol => ⟨symbol, .eqNullish isUndefined, positive, ⟨span, name⟩⟩)) →
      OneName (fun scope => nullishGuard scope (.identifier span name) right positive) :=
    fun isUndefined h => .inr ⟨name, _, fun _ => rfl, h⟩
  cases right with
  | null =>
    refine .inr ⟨⟨span, name, rfl, hname⟩, .inl rfl, hone false ?_⟩
    intro scope
    cases hresolve : Scope.resolveValue scope name <;> simp [nullishGuard, hsome scope, hresolve]
  | identifier span' name' =>
    by_cases hundefined : name' = "undefined"
    · subst hundefined
      refine .inr ⟨⟨span, name, rfl, hname⟩, .inr ⟨span', rfl⟩, hone true ?_⟩
      intro scope
      cases hresolve : Scope.resolveValue scope name <;> simp [nullishGuard, hsome scope, hresolve]
    · exact .inl (fun scope => by simp [nullishGuard, hundefined])
  | _ => exact .inl (fun scope => rfl)

theorem discriminantGuard_cases (env : FlowEnv) (left right : Expr) (positive : Bool) :
    (∀ scope, discriminantGuard env scope left right positive = none) ∨
      (∃ object property optional, left = .staticMember object property optional) ∧
      (∃ value, right = .literal value) ∧
        OneName (fun scope => discriminantGuard env scope left right positive) := by
  rcases memberDiscriminant_cases left with
    hnone | ⟨object, property, optional, span, name, rfl, hsome⟩
  · exact .inl (fun scope => by simp [discriminantGuard, hnone scope])
  cases right with
  | literal value =>
    refine .inr ⟨⟨object, property, optional, rfl⟩, ⟨value, rfl⟩, ?_⟩
    cases hliteral : literalExprType env (.literal value) with
    | none => exact .inl (fun scope => by simp [discriminantGuard, hliteral])
    | some literal =>
      refine .inr ⟨name, fun symbol =>
        ⟨symbol, .discriminant property literal, positive, ⟨span, name⟩⟩, fun _ => rfl, ?_⟩
      intro scope
      cases hresolve : Scope.resolveValue scope name <;>
        simp [discriminantGuard, hliteral, hsome scope, hresolve]
  | _ =>
    refine .inl (fun scope => ?_)
    simp [discriminantGuard, literalExprType]

/-- Of two analyses at most one has something to say. -/
theorem OneName.orElse {first second : Scope → Option GuardFact} (hfirst : OneName first)
    (hsecond : OneName second)
    (hexclusive : (∀ scope, first scope = none) ∨ (∀ scope, second scope = none)) :
    OneName (fun scope =>
      match first scope with
      | some fact => some fact
      | none => second scope) := by
  rcases hexclusive with hnone | hnone
  · simpa only [hnone] using hsecond
  · convert hfirst using 2 with scope
    cases hscope : first scope with
    | some fact => rfl
    | none => exact hnone scope

theorem oneName_typeofGuard (positive : Bool) :
    OneName (fun scope => typeofGuard scope left right positive) :=
  (typeofGuard_cases left right positive).elim .inl (fun h => h.2)

theorem oneName_nullishGuard (positive : Bool) :
    OneName (fun scope => nullishGuard scope left right positive) :=
  (nullishGuard_cases left right positive).elim .inl (fun h => h.2.2)

theorem oneName_discriminantGuard (env : FlowEnv) (left right : Expr) (positive : Bool) :
    OneName (fun scope => discriminantGuard env scope left right positive) :=
  (discriminantGuard_cases env left right positive).elim .inl (fun h => h.2.2)

/-- The six forms exclude each other by the shapes of the operands. -/
theorem oneName_analyzeEqualityGuard (env : FlowEnv) (op : BinaryOperator) (left right : Expr) :
    OneName (fun scope => analyzeEqualityGuard env scope op left right) := by
  have hdiscriminant (positive : Bool) := (oneName_discriminantGuard env left right positive).orElse
    (oneName_discriminantGuard env right left positive) (by
      rcases discriminantGuard_cases env left right positive with
        hnone | ⟨⟨object, property, optional, rfl⟩, ⟨value, rfl⟩, -⟩
      · exact .inl hnone
      · exact .inr (fun scope => by simp [discriminantGuard, memberDiscriminant]))
  have hbehind (positive : Bool) := (oneName_nullishGuard right left positive).orElse
    (hdiscriminant positive) (by
      rcases nullishGuard_cases right left positive with
        hnone | ⟨⟨span, name, rfl, -⟩, rfl | ⟨span', rfl⟩, -⟩
      · exact .inl hnone
      · exact .inr (fun scope => by simp [discriminantGuard, memberDiscriminant])
      · exact .inr (fun scope => by simp [discriminantGuard, memberDiscriminant]))
  have hnullish (positive : Bool) := (oneName_nullishGuard left right positive).orElse
    (hbehind positive) (by
      rcases nullishGuard_cases left right positive with
        hnone | ⟨⟨span, name, rfl, hname⟩, rfl | ⟨span', rfl⟩, -⟩
      · exact .inl hnone
      · exact .inr (fun scope => by
          simp [nullishGuard, conditionSymbol, discriminantGuard, memberDiscriminant])
      · exact .inr (fun scope => by
          simp [nullishGuard, conditionSymbol, discriminantGuard, memberDiscriminant]))
  have hloose (positive : Bool) := (oneName_typeofGuard left right positive).orElse
    ((oneName_typeofGuard right left positive).orElse
      (show OneName (fun _ => none) from .inl (fun _ => rfl)) (.inr (fun _ => rfl))) (by
      rcases typeofGuard_cases left right positive with
        hnone | ⟨⟨argument, literal, rfl, rfl⟩, -⟩
      · exact .inl hnone
      · exact .inr (fun scope => by simp [typeofGuard]))
  have hswapped (positive : Bool) := (oneName_typeofGuard right left positive).orElse
    (hnullish positive) (by
      rcases typeofGuard_cases right left positive with
        hnone | ⟨⟨argument, literal, rfl, rfl⟩, -⟩
      · exact .inl hnone
      · exact .inr (fun scope => by simp [nullishGuard, discriminantGuard, memberDiscriminant]))
  have hstrict (positive : Bool) := (oneName_typeofGuard left right positive).orElse
    (hswapped positive) (by
      rcases typeofGuard_cases left right positive with
        hnone | ⟨⟨argument, literal, rfl, rfl⟩, -⟩
      · exact .inl hnone
      · exact .inr (fun scope => by
          simp [typeofGuard, nullishGuard, discriminantGuard, memberDiscriminant]))
  cases op with
  | strictEquality => exact hstrict true
  | equality => exact hloose true
  | strictInequality => exact hstrict false
  | inequality => exact hloose false
  | «in» => exact .inl (fun scope => rfl)
  | other => exact .inl (fun scope => rfl)

theorem oneName_inGuard : OneName (fun scope => inGuard scope left right) := by
  rcases conditionSymbol_cases right with hnone | ⟨span, name, rfl, -, hsome⟩
  · refine .inl (fun scope => ?_)
    unfold inGuard
    simp [hnone scope]
  · by_cases hleft : ∃ property, left = .literal (.string property)
    · obtain ⟨property, rfl⟩ := hleft
      refine .inr ⟨name, fun symbol => ⟨symbol, .in property, true, ⟨span, name⟩⟩,
        fun _ => rfl, ?_⟩
      intro scope
      cases hresolve : Scope.resolveValue scope name <;> simp [inGuard, hsome scope, hresolve]
    · refine .inl (fun scope => ?_)
      show inGuard scope left _ = none
      unfold inGuard
      split
      · exact absurd ⟨_, rfl⟩ hleft
      · rfl

/-- **A guard is about one name**, wherever that name is declared. -/
theorem oneName_analyzeGuard (env : FlowEnv) (expr : Expr) :
    OneName (fun scope => analyzeGuard env scope expr) := by
  induction expr using analyzeGuard.induct with
  | case1 argument ih =>
    rcases ih with hnone | ⟨name, fact, hsymbol, hsome⟩
    · exact .inl (fun scope => by simp [analyzeGuard, hnone scope])
    · refine .inr ⟨name, fun symbol =>
        { fact symbol with thenPositive := !(fact symbol).thenPositive }, hsymbol, ?_⟩
      intro scope
      simp [analyzeGuard, hsome scope, Option.map_map, Function.comp_def]
  | case2 inner ih => exact ih
  | case3 span name right =>
    exact .inr ⟨name, fun symbol => ⟨symbol, .truthy, true, ⟨span, name⟩⟩, fun _ => rfl,
      fun scope => by simp [analyzeGuard]⟩
  | case4 span name =>
    rcases conditionSymbol_cases (.identifier span name) with hnone | ⟨span', name', heq, -, hsome⟩
    · exact .inl (fun scope => by simp [analyzeGuard, hnone scope])
    · refine .inr ⟨name', fun symbol => ⟨symbol, .truthy, true, ⟨span', name'⟩⟩, fun _ => rfl, ?_⟩
      intro scope
      simp [analyzeGuard, hsome scope, Option.map_map, Function.comp_def]
  | case5 left right =>
    exact oneName_inGuard left right
  | case6 op left right hop =>
    have heq : (fun scope => analyzeGuard env scope (.binary op left right)) =
        fun scope => analyzeEqualityGuard env scope op left right := by
      funext scope
      cases op <;> first | rfl | exact absurd rfl hop
    rw [heq]
    exact oneName_analyzeEqualityGuard env op left right
  | case7 expr h₁ h₂ h₃ h₄ h₅ h₆ =>
    refine .inl (fun scope => ?_)
    unfold analyzeGuard
    split <;> first | rfl | simp_all

end Typokat.Check
