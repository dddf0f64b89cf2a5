import Mathlib.Data.List.Basic
import Mathlib.Tactic.Common

/-!
# Inquiries

A procedure that asks questions one after the other and goes on with each answer, as a tree.
The same tree is evaluated against an oracle and run by an engine that finds its answers.

## Main Definitions

- `Inquiry.bind` : one procedure after the other
- `Inquiry.mapQuestions` : the same procedure with other questions
-/

namespace Typokat.Lib

/-- A tree of questions; `within` asks the questions of its body in a scope. -/
inductive Inquiry (Q S A : Type)
  | done (answer : A)
  /-- the nesting is deeper than expected -/
  | stuck
  | ask (question : Q) (next : A → Inquiry Q S A)
  | within (scope : S) (body : Inquiry Q S A) (next : A → Inquiry Q S A)

namespace Inquiry

variable {Q S A : Type}

/-! ## §1 Sequences -/

/-- Go on with the result. -/
def bind : Inquiry Q S A → (A → Inquiry Q S A) → Inquiry Q S A
  | done answer, f => f answer
  | stuck, _ => stuck
  | ask question next, f => ask question (fun answer => (next answer).bind f)
  | within scope body next, f => within scope body (fun answer => (next answer).bind f)

/-- Change the questions. -/
def mapQuestions (f : Q → Q) : Inquiry Q S A → Inquiry Q S A
  | done answer => done answer
  | stuck => stuck
  | ask question next => ask (f question) (fun answer => (next answer).mapQuestions f)
  | within scope body next =>
    within scope (body.mapQuestions f) (fun answer => (next answer).mapQuestions f)

end Inquiry

end Typokat.Lib
