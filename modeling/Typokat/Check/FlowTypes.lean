import Mathlib.Data.Finset.Union
import Typokat.Types.Repr

/-!
# Types as the Flow Resolver Sees Them (`typokat-check/src/check/flow.rs`)

Flow resolution does two things with a type: it joins types with `Interner::union` and it
filters a type by a guard.  Both only look at the members of a canonical union, and a
canonical union is determined by its member set, so a type is represented here by its
members.  The three types that are not treated member by member stand beside the member
sets: `any` and the error type, which absorb a union and are never narrowed, and
`unknown`, which absorbs the other members and is narrowed as a single member.

## Main Results

- `FlowType.mem_atoms_narrow` : a guard intersects the atoms of a type with the kept ones
- `FlowType.covers_unionAll` : a join covers what its parts cover
- `FlowType.covers_narrow` : a guard keeps covering the atoms that it keeps
-/

namespace Typokat.Check

open Types

/-! ## §1 Members and types -/

/-- A member of a canonical union: not a union, not `never` and not a top type. -/
inductive Member
  | boolean
  /-- one of the two boolean literal types -/
  | literal (value : Bool)
  | other (ty : TypeId)
  deriving DecidableEq, Repr

/-- A type up to the order of its members; `never` is the union of no members. -/
inductive FlowType
  | any
  | error
  | unknown
  | union (members : Finset Member)
  deriving DecidableEq

/-- What a member is read as: `boolean` stands for its two literals. -/
inductive Atom
  | any
  | error
  | unknown
  | literal (value : Bool)
  | other (ty : TypeId)
  deriving DecidableEq, Repr

/-- `boolean` is read as `true | false`. -/
def Member.atoms : Member → Finset Atom
  | .boolean => {.literal true, .literal false}
  | .literal value => {.literal value}
  | .other ty => {.other ty}

/-- A guard as a member-wise filter: the atoms it keeps.  Keeping one of the two boolean
literals turns the member `boolean` into that literal. -/
abbrev Filter := Atom → Bool

/-- The outcome of a filter on one member. -/
def Member.narrow (keeps : Filter) : Member → Finset Member
  | .boolean =>
    match keeps (.literal true), keeps (.literal false) with
    | true, true => {.boolean}
    | true, false => {.literal true}
    | false, true => {.literal false}
    | false, false => ∅
  | .literal value => if keeps (.literal value) then {.literal value} else ∅
  | .other ty => if keeps (.other ty) then {.other ty} else ∅

theorem Member.mem_atoms_narrow (keeps : Filter) (member : Member) (atom : Atom) :
    (∃ kept ∈ member.narrow keeps, atom ∈ kept.atoms) ↔
      atom ∈ member.atoms ∧ keeps atom = true := by
  cases member with
  | boolean =>
    -- the four outcomes of the filter on the two literals, against each atom
    cases htrue : keeps (.literal true) <;> cases hfalse : keeps (.literal false) <;>
      cases atom <;> simp [Member.narrow, Member.atoms, htrue, hfalse]
    all_goals rename_i value; cases value <;> simp [htrue, hfalse]
  | literal value =>
    cases hvalue : keeps (.literal value) <;> cases atom <;>
      simp_all [Member.narrow, Member.atoms]
  | other ty =>
    cases hty : keeps (.other ty) <;> cases atom <;> simp_all [Member.narrow, Member.atoms]

/-- No member is read as a top type. -/
theorem Member.not_top_of_mem_atoms {member : Member} {atom : Atom} (h : atom ∈ member.atoms) :
    atom ≠ .any ∧ atom ≠ .error ∧ atom ≠ .unknown := by
  cases member <;> simp only [Member.atoms, Finset.mem_insert, Finset.mem_singleton] at h
  case boolean => rcases h with rfl | rfl <;> simp
  case literal => subst h; simp
  case other => subst h; simp

namespace FlowType

/-- The bottom type. -/
def never : FlowType := .union ∅

/-- The union members of a type, with `boolean` read as `true | false`. -/
def atoms : FlowType → Finset Atom
  | any => {.any}
  | error => {.error}
  | unknown => {.unknown}
  | union members => members.biUnion Member.atoms

@[simp] theorem atoms_any : atoms any = {.any} := rfl
@[simp] theorem atoms_error : atoms error = {.error} := rfl
@[simp] theorem atoms_unknown : atoms unknown = {.unknown} := rfl

variable {atom : Atom}

@[simp] theorem mem_atoms_union {members : Finset Member} :
    atom ∈ atoms (union members) ↔ ∃ member ∈ members, atom ∈ member.atoms := by
  simp [atoms]

/-- The members of a type that is no top type. -/
def members : FlowType → Finset Member
  | union members => members
  | _ => ∅

/-- `Interner::union`: `any` and the error type absorb everything, then `unknown` does, and
otherwise the member sets are merged. -/
def unionAll (parts : List FlowType) : FlowType :=
  if any ∈ parts ∨ error ∈ parts then any
  else if unknown ∈ parts then unknown
  else union (parts.toFinset.biUnion members)

/-- `filter_union`: `any` and the error type are never narrowed; `unknown` is a one-member
set; a union is filtered member by member and re-interned. -/
def narrow (keeps : Filter) : FlowType → FlowType
  | any => any
  | error => error
  | unknown => if keeps .unknown then unknown else never
  | union members => union (members.biUnion (Member.narrow keeps))

/-! ## §2 Atoms of the operations -/

/-- An atom that a filter lets through; the un-narrowable ones always pass. -/
def Passes (keeps : Filter) (atom : Atom) : Prop :=
  atom = .any ∨ atom = .error ∨ keeps atom = true

/-- **A guard intersects the atoms with the kept ones.** -/
theorem mem_atoms_narrow {keeps : Filter} {ty : FlowType} :
    atom ∈ (ty.narrow keeps).atoms ↔ atom ∈ ty.atoms ∧ Passes keeps atom := by
  cases ty with
  | any => simp +contextual [narrow, Passes]
  | error => simp +contextual [narrow, Passes]
  | unknown =>
    cases hkeeps : keeps .unknown
    · simp only [narrow, hkeeps, never, atoms]
      constructor
      · intro h
        simp at h
      · rintro ⟨h, hpass⟩
        rw [Finset.mem_singleton] at h
        subst h
        simp [Passes, hkeeps] at hpass
    · simp +contextual [narrow, hkeeps, Passes]
  | union members =>
    have hiff : atom ∈ ((union members).narrow keeps).atoms ↔
        ∃ member ∈ members, ∃ kept ∈ member.narrow keeps, atom ∈ kept.atoms := by
      simp only [narrow, mem_atoms_union, Finset.mem_biUnion]
      constructor
      · rintro ⟨kept, ⟨member, hmember, hkept⟩, hatom⟩
        exact ⟨member, hmember, kept, hkept, hatom⟩
      · rintro ⟨member, hmember, kept, hkept, hatom⟩
        exact ⟨kept, ⟨member, hmember, hkept⟩, hatom⟩
    rw [hiff, mem_atoms_union]
    constructor
    · rintro ⟨member, hmember, hkept⟩
      obtain ⟨hatom, hkeeps⟩ := (Member.mem_atoms_narrow keeps member atom).mp hkept
      exact ⟨⟨member, hmember, hatom⟩, .inr (.inr hkeeps)⟩
    · rintro ⟨⟨member, hmember, hatom⟩, hpass⟩
      refine ⟨member, hmember, (Member.mem_atoms_narrow keeps member atom).mpr ⟨hatom, ?_⟩⟩
      obtain ⟨hany, herror, -⟩ := Member.not_top_of_mem_atoms hatom
      rcases hpass with h | h | h
      · exact absurd h hany
      · exact absurd h herror
      · exact h

/-- A type covers an atom when the atom is one of its members or the type absorbs it. -/
def Covers (ty : FlowType) (atom : Atom) : Prop :=
  atom ∈ ty.atoms ∨ ty = any ∨ ty = unknown

theorem Covers.of_mem {ty : FlowType} (h : atom ∈ ty.atoms) : ty.Covers atom :=
  .inl h

/-- **A join covers what its parts cover.** -/
theorem covers_unionAll {parts : List FlowType} {part : FlowType} (hpart : part ∈ parts)
    (h : part.Covers atom) : (unionAll parts).Covers atom := by
  unfold unionAll
  by_cases htop : any ∈ parts ∨ error ∈ parts
  · rw [if_pos htop]
    exact .inr (.inl rfl)
  rw [if_neg htop]
  by_cases hunknown : unknown ∈ parts
  · rw [if_pos hunknown]
    exact .inr (.inr rfl)
  rw [if_neg hunknown]
  cases part with
  | any => exact absurd (.inl hpart) htop
  | error => exact absurd (.inr hpart) htop
  | unknown => exact absurd hpart hunknown
  | union members =>
    have hatom : atom ∈ (union members).atoms := by
      rcases h with h | h | h
      · exact h
      · cases h
      · cases h
    obtain ⟨member, hmember, hatom⟩ := mem_atoms_union.mp hatom
    refine .of_mem (mem_atoms_union.mpr ⟨member, ?_, hatom⟩)
    exact Finset.mem_biUnion.mpr ⟨union members, List.mem_toFinset.mpr hpart, hmember⟩

/-- **A guard keeps covering the atoms it keeps**, as long as it does not drop `unknown`. -/
theorem covers_narrow {keeps : Filter} {ty : FlowType}
    (hunknown : ty = unknown → keeps .unknown = true) (hpass : Passes keeps atom)
    (h : ty.Covers atom) : (ty.narrow keeps).Covers atom := by
  rcases h with h | rfl | rfl
  · exact .of_mem (mem_atoms_narrow.mpr ⟨h, hpass⟩)
  · exact .inr (.inl rfl)
  · refine .inr (.inr ?_)
    simp [narrow, hunknown rfl]

/-- A join is `unknown` only when a part is. -/
theorem unknown_of_unionAll {parts : List FlowType} (h : unionAll parts = unknown) :
    unknown ∈ parts := by
  unfold unionAll at h
  split at h
  · cases h
  · split at h
    · assumption
    · cases h

/-- A narrowed type is `unknown` only when the type was, and the filter keeps `unknown`. -/
theorem unknown_of_narrow {keeps : Filter} {ty : FlowType} (h : ty.narrow keeps = unknown) :
    ty = unknown ∧ keeps .unknown = true := by
  cases ty with
  | any => cases h
  | error => cases h
  | unknown =>
    cases hkeeps : keeps .unknown
    · simp [narrow, hkeeps, never] at h
    · exact ⟨rfl, rfl⟩
  | union members => cases h

end FlowType

end Typokat.Check
