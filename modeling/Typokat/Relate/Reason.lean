import Typokat.Types.Repr

/-!
# Failure Reasons (`typokat-relate/src/relate/relation/mod.rs`)

The explanation a failed relation carries, and the verdict type of the engine.
-/

namespace Typokat.Relate

open Types

/-- Distinct relation kinds never share cache entries. -/
inductive RelationKind
  | identity | subtype | assignable
  deriving DecidableEq, Repr

/-- One link in a failure explanation; `because` is the first nested cause. -/
inductive Reason
  | leaf (src tgt : TypeId)
  | missingProperty (name : PropertyKey) (src tgt : TypeId)
  | property (name : PropertyKey) (src tgt : TypeId) (because : Reason)
  | parameterCount (src tgt : TypeId)
  | parameter (index : Nat) (src tgt : TypeId) (because : Reason)
  | returnType (src tgt : TypeId) (because : Reason)
  | unionSourceMember (member src tgt : TypeId) (because : Reason)
  | noUnionMember (src tgt : TypeId)
  | arrayElement (src tgt : TypeId) (because : Reason)
  | tupleLength (src tgt : TypeId)
  | tupleElement (index : Nat) (src tgt : TypeId) (because : Reason)
  | indexSignature (src tgt : TypeId) (because : Reason)
  deriving DecidableEq, Repr

/-- A non-empty chain of reasons, outermost first. -/
structure ReasonChain where
  head : Reason
  deriving DecidableEq, Repr

/-- `ReasonChain::leaf`. -/
def ReasonChain.leaf (src tgt : TypeId) : ReasonChain := ⟨.leaf src tgt⟩

/-- `ReasonChain::of`. -/
def ReasonChain.of (head : Reason) : ReasonChain := ⟨head⟩

/-- The result of a relation query. -/
inductive Relation
  | yes
  | no (reason : ReasonChain)
  deriving DecidableEq, Repr

/-- `Relation::is_yes`. -/
def Relation.isYes : Relation → Bool
  | .yes => true
  | .no _ => false

@[simp] theorem Relation.isYes_yes : Relation.yes.isYes = true := rfl
@[simp] theorem Relation.isYes_no (reason : ReasonChain) :
    (Relation.no reason).isYes = false := rfl

end Typokat.Relate
