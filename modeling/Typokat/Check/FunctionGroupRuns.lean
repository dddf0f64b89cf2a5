import Typokat.Check.FunctionGroups

/-!
# Publication of Function Groups

Sequences of registry operations.  A group that has a value, or can have none, stays that way;
a value is published only when the group is complete; and a participant whose body used a
group without a value never becomes public.

The last fact is about nested fills.  A frame is paired with the participant whose body it
fills: as long as the fill is open the participant waits, and a frame that recorded a missing
value makes the group unavailable when it closes.

## Main Results

- `terminal_keeps` : the answers `Ready` and `Unavailable` are permanent
- `published_from` : where a published value comes from
- `Tracked.step` : one operation, with the fills that are open
- `functionGroups_publish_once` : the four facts for every sequence of operations
-/

namespace Typokat.Check

open Types Lib FunctionGroupDraft List

variable {Ticket : Type}

namespace FunctionGroupRegistry

variable {registry after : FunctionGroupRegistry Ticket} {op : FunctionGroupOp Ticket}
  {symbol : SymbolId} {draft next : FunctionGroupDraft Ticket} {declaration : ValueStorageId}

/-! ## §1 Answers -/

/-- A group that is being built gives neither its value nor up. -/
theorem demand_of_building (hlookup : registry.groups.lookup symbol = some draft)
    (hstate : draft.state = .building) :
    (∀ ty, (registry.demand symbol).1 ≠ .ready ty) ∧ (registry.demand symbol).1 ≠ .unavailable := by
  simp only [demand, hlookup, Option.map_some, hstate]
  split
  · simp
  · split <;> simp

theorem demand_ready_iff {ty : TypeId} : (registry.demand symbol).1 = .ready ty ↔
    ∃ draft, registry.groups.lookup symbol = some draft ∧ draft.state = .published ty := by
  cases hlookup : registry.groups.lookup symbol with
  | none => simp [demand, hlookup]
  | some draft =>
    cases hstate : draft.state with
    | building => simp [hstate, (demand_of_building hlookup hstate).1]
    | published _ => simp [demand, hlookup, hstate]
    | unavailable _ _ => simp [demand, hlookup, hstate]

theorem demand_unavailable_iff : (registry.demand symbol).1 = .unavailable ↔
    ∃ draft, registry.groups.lookup symbol = some draft ∧
      ∃ cause owner, draft.state = .unavailable cause owner := by
  cases hlookup : registry.groups.lookup symbol with
  | none => simp [demand, hlookup]
  | some draft =>
    cases hstate : draft.state with
    | building => simp [hstate, (demand_of_building hlookup hstate).2]
    | published _ => simp [demand, hlookup, hstate]
    | unavailable _ _ => simp [demand, hlookup, hstate]

/-- A use that gets no value is recorded on the innermost fill. -/
theorem demand_blocked {active : ActiveFunctionGroupFill Ticket}
    {outer : List (ActiveFunctionGroupFill Ticket)} (hfills : registry.activeFills = active :: outer)
    (h : (registry.demand symbol).1 = .unavailable ∨
      ∃ report, (registry.demand symbol).1 = .pending report) :
    ∃ noted, (registry.demand symbol).2.activeFills = noted :: outer ∧
      (noted.dependency.isSome ∨ noted.dependencyUnavailable = true) := by
  unfold demand at h ⊢
  cases hstate : (registry.groups.lookup symbol).map state with
  | none => simp [hstate] at h
  | some state =>
    cases state with
    | published _ => simp [hstate] at h
    | unavailable _ _ =>
      refine ⟨{ active with dependencyUnavailable := true }, ?_, .inr rfl⟩
      simp [noteInnermost, hfills]
    | building =>
      simp only [hstate, hfills] at h ⊢
      cases hself : (if active.symbol = symbol then active.privateSelf else none) with
      | some privateSelf => simp [hself] at h
      | none =>
        refine ⟨{ active with dependency := some (active.dependency.getD symbol) }, ?_, .inl rfl⟩
        simp [noteInnermost, hfills]

/-- Any other frame stays, and so does what the innermost one recorded. -/
theorem demand_activeFills : ∃ note : ActiveFunctionGroupFill Ticket → ActiveFunctionGroupFill Ticket,
    (registry.demand symbol).2.activeFills = registry.activeFills.modifyHead note ∧
      ∀ active, (active.dependency.isSome ∨ active.dependencyUnavailable = true) →
        ((note active).dependency.isSome ∨ (note active).dependencyUnavailable = true) := by
  unfold demand
  cases (registry.groups.lookup symbol).map state with
  | none => exact ⟨id, by simp, fun _ h => h⟩
  | some state =>
    cases state with
    | published _ => exact ⟨id, by simp, fun _ h => h⟩
    | unavailable _ _ => exact ⟨_, rfl, fun _ _ => .inr rfl⟩
    | building =>
      cases hfills : registry.activeFills with
      | nil => exact ⟨id, by simp [hfills], fun _ h => h⟩
      | cons active outer =>
        dsimp only
        cases (if active.symbol = symbol then active.privateSelf else none) with
        | some _ => exact ⟨id, by simp [hfills], fun _ h => h⟩
        | none => exact ⟨_, by rw [noteInnermost, hfills], fun _ _ => .inl rfl⟩

/-! ## §2 States of a group -/

/-- A step keeps a state other than `Building`, unless a published group misses its payload. -/
theorem GroupStep.terminal (hstep : GroupStep registry op symbol draft next)
    (hstate : draft.state ≠ .building)
    (hpayload : ∀ ty, draft.state = .published ty → ∃ properties, draft.namespacePayload =
      .ready properties) :
    (∀ ty, draft.state = .published ty → next.state = .published ty) ∧
      ((∃ cause owner, draft.state = .unavailable cause owner) →
        ∃ cause owner, next.state = .unavailable cause owner) := by
  cases hstep with
  | keep => exact ⟨fun _ h => h, fun h => h⟩
  | reserve hbuilding _ => exact absurd hbuilding hstate
  | installReady _ _ => exact ⟨fun _ h => h, fun h => h⟩
  | installUnavailable owner hmissing =>
    refine ⟨fun ty h => ?_, fun _ => ⟨_, _, rfl⟩⟩
    obtain ⟨properties, hready⟩ := hpayload ty h
    cases hmissing.symm.trans hready
  | bodyReady _ _ _ _ hbuilding _ _ => exact absurd hbuilding hstate
  | bodyUnavailable _ _ hbuilding => exact absurd hbuilding hstate
  | markUnavailable cause owner hopen => exact ⟨fun ty h => absurd h (hopen ty), fun _ => ⟨_, _, rfl⟩⟩
  | publish _ _ hbuilding _ => exact absurd hbuilding hstate

theorem GroupStep.not_building (hstep : GroupStep registry op symbol draft next)
    (hstate : draft.state ≠ .building) : next.state ≠ .building := by
  cases hstep with
  | keep => exact hstate
  | reserve hbuilding _ => exact absurd hbuilding hstate
  | installReady _ _ => exact hstate
  | installUnavailable _ _ => exact fun h => by cases h
  | bodyReady _ _ _ _ hbuilding _ _ => exact absurd hbuilding hstate
  | bodyUnavailable _ _ hbuilding => exact absurd hbuilding hstate
  | markUnavailable _ _ _ => exact fun h => by cases h
  | publish _ _ hbuilding _ => exact absurd hbuilding hstate

/-- A published group has its payload. -/
theorem GroupStep.payload (hstep : GroupStep registry op symbol draft next)
    (hpayload : ∀ ty, draft.state = .published ty → ∃ properties, draft.namespacePayload =
      .ready properties)
    (ty : TypeId) (hty : next.state = .published ty) :
    ∃ properties, next.namespacePayload = .ready properties := by
  cases hstep with
  | keep => exact hpayload ty hty
  | reserve hbuilding hreserved =>
    rw [hreserved.state, hbuilding] at hty
    cases hty
  | installReady properties _ => exact ⟨properties, rfl⟩
  | installUnavailable _ _ => cases hty
  | bodyReady _ _ _ _ hbuilding _ _ =>
    cases hbuilding.symm.trans hty
  | bodyUnavailable _ _ _ => cases hty
  | markUnavailable _ _ _ => cases hty
  | publish _ _ _ hcomplete => exact hcomplete.payload

/-- Only `mark_published` publishes. -/
theorem GroupStep.published (hstep : GroupStep registry op symbol draft next) {ty : TypeId}
    (hfresh : draft.state ≠ .published ty) (hty : next.state = .published ty) :
    op = .markPublished symbol ty ∧ draft.state = .building ∧ draft.Complete := by
  cases hstep with
  | keep => exact absurd hty hfresh
  | reserve _ hreserved => exact absurd (hreserved.state.symm.trans hty) hfresh
  | installReady _ _ => exact absurd hty hfresh
  | installUnavailable _ _ => cases hty
  | bodyReady _ _ _ _ _ _ _ => exact absurd hty hfresh
  | bodyUnavailable _ _ _ => cases hty
  | markUnavailable _ _ _ => cases hty
  | publish _ hop hbuilding hcomplete =>
    cases hty
    exact ⟨hop, hbuilding, hcomplete⟩

/-- What holds of the groups in every state. -/
structure Settled (registry : FunctionGroupRegistry Ticket) : Prop where
  payload : ∀ symbol draft ty, registry.groups.lookup symbol = some draft →
    draft.state = .published ty → ∃ properties, draft.namespacePayload = .ready properties
  nodup : ∀ symbol draft, registry.groups.lookup symbol = some draft → draft.declarations.Nodup

theorem declarations_ofIdentity (identity : FunctionGroupIdentity) :
    (ofIdentity identity : FunctionGroupDraft Ticket).declarations =
      identity.participants := by
  unfold declarations ofIdentity
  rw [map_map]
  exact map_id _

/-- A step keeps what a group was registered with. -/
theorem GroupStep.identity (hstep : GroupStep registry op symbol draft next) :
    next.declarations = draft.declarations := by
  cases hstep with
  | reserve _ hreserved => exact hreserved.declarations
  | bodyReady _ _ _ _ _ _ _ => exact declarations_updateParticipant
  | _ => rfl

theorem Settled.step (hsettled : registry.Settled) (h : op.apply registry = some after) :
    after.Settled := by
  have hback : ∀ symbol next, after.groups.lookup symbol = some next →
      (∃ draft, registry.groups.lookup symbol = some draft ∧
        GroupStep registry op symbol draft next) ∨
      ∃ identity, next = .ofIdentity identity ∧ identity.participants.Nodup := by
    intro symbol next hnext
    cases hlookup : registry.groups.lookup symbol with
    | none =>
      obtain ⟨identity, _, _, heq, hnodup⟩ := lookup_new h hlookup hnext
      exact .inr ⟨identity, heq, hnodup⟩
    | some draft =>
      obtain ⟨next', hnext', hstep⟩ := lookup_step h hlookup
      cases hnext.symm.trans hnext'
      exact .inl ⟨draft, rfl, hstep⟩
  constructor
  · intro symbol next ty hnext hty
    rcases hback symbol next hnext with ⟨draft, hdraft, hstep⟩ | ⟨identity, rfl, _⟩
    · exact hstep.payload (fun ty hstate => hsettled.payload symbol draft ty hdraft hstate) ty hty
    · cases hty
  · intro symbol next hnext
    rcases hback symbol next hnext with ⟨draft, hdraft, hstep⟩ | ⟨identity, rfl, hnodup⟩
    · rw [hstep.identity]
      exact hsettled.nodup symbol draft hdraft
    · rwa [declarations_ofIdentity]

theorem settled_default : (default : FunctionGroupRegistry Ticket).Settled := by
  constructor <;> intro symbol draft <;> simp [default]

/-! ## §3 Plans -/

section Publishing

variable (hdraft : registry.groups.lookup symbol = some draft)
include hdraft

/-- **The two publish conditions agree.** There is a plan exactly when the group is being built
and complete. -/
theorem publicationPlan_spec :
    (∃ plan, registry.publicationPlan symbol = some (some plan)) ↔
      draft.state = .building ∧ draft.Complete := by
  unfold publicationPlan
  rw [hdraft, complete_iff, ← isBuilding_iff]
  simp only [Option.bind_eq_bind, Option.bind_some, Option.some.injEq]
  cases draft.isBuilding <;> cases draft.readyPayload <;>
    cases draft.participants.any FunctionParticipantSlot.isOpen <;>
    cases (draft.publicRows ++ draft.inheritedCallSignatures).isEmpty <;>
    simp [guard]

/-- What a plan consists of. -/
theorem eq_of_publicationPlan {plan : FunctionGroupPublication}
    (h : registry.publicationPlan symbol = some (some plan)) :
    plan.participants = draft.declarations ∧
      plan.callSignatures = draft.publicRows ++ draft.inheritedCallSignatures := by
  unfold publicationPlan at h
  rw [hdraft] at h
  simp only [Option.bind_eq_bind, Option.bind_some, Option.some.injEq, Option.bind_eq_some_iff] at h
  obtain ⟨_, _, properties, _, _, _, _, _, hplan⟩ := h
  cases hplan
  exact ⟨rfl, rfl⟩

theorem markPublished_of_complete (hbuilding : draft.state = .building) (hcomplete : draft.Complete)
    (ty : TypeId) :
    registry.markPublished symbol ty =
      some (registry.setDraft symbol { draft with state := .published ty }) := by
  unfold markPublished
  rw [hdraft, Option.bind_eq_bind, Option.bind_some, if_neg]
  exact publishes_iff.mpr ⟨hbuilding, hcomplete⟩

end Publishing

/-! ## §4 States of a participant -/

/-- The state of a participant. -/
def slotState (registry : FunctionGroupRegistry Ticket) (symbol : SymbolId)
    (declaration : ValueStorageId) : Option FunctionParticipantState := do
  let draft ← registry.groups.lookup symbol
  let slot ← draft.slot? declaration
  some slot.state

theorem slotState_eq_some_iff {state : FunctionParticipantState} :
    registry.slotState symbol declaration = some state ↔
      ∃ draft slot, registry.groups.lookup symbol = some draft ∧
        draft.slot? declaration = some slot ∧ slot.state = state := by
  simp [slotState, Option.bind_eq_some_iff]

/-- The group is not built any more: it has a value or can have none. -/
def Decided (registry : FunctionGroupRegistry Ticket) (symbol : SymbolId) : Prop :=
  ∃ draft, registry.groups.lookup symbol = some draft ∧ draft.state ≠ .building

theorem Decided.step (hdecided : registry.Decided symbol) (h : op.apply registry = some after) :
    after.Decided symbol := by
  obtain ⟨draft, hdraft, hstate⟩ := hdecided
  obtain ⟨next, hnext, hstep⟩ := lookup_step h hdraft
  exact ⟨next, hnext, hstep.not_building hstate⟩

/-- **A participant that was seen changes its state only when its body is complete.** -/
theorem slotState_step (h : op.apply registry = some after) {state : FunctionParticipantState}
    (hstate : registry.slotState symbol declaration = some state) (hseen : state ≠ .unseen) :
    after.slotState symbol declaration = some state ∨
      ∃ ty active outer, op = .finishBody symbol declaration ty ∧
        registry.activeFills = active :: outer ∧ active.failure symbol = none ∧
        state = .waitingForBody ∧ after.slotState symbol declaration = some (.publicRow ty) := by
  obtain ⟨draft, slot, hdraft, hslot, rfl⟩ := slotState_eq_some_iff.mp hstate
  obtain ⟨next, hnext, hstep⟩ := lookup_step h hdraft
  have hkept : next.slot? declaration = some slot →
      after.slotState symbol declaration = some slot.state :=
    fun hsame => slotState_eq_some_iff.mpr ⟨next, slot, hnext, hsame, rfl⟩
  cases hstep with
  | reserve _ hreserved => exact .inl (hkept (hreserved.kept declaration slot hslot hseen))
  | @bodyReady active outer finished completed ty hfills hfailure hop hbuilding hcompleted
      hwaiting =>
    by_cases heq : finished = declaration
    · subst heq
      cases hslot.symm.trans hcompleted
      refine .inr ⟨ty, active, outer, hop, hfills, hfailure, hwaiting, ?_⟩
      refine slotState_eq_some_iff.mpr ⟨_, { slot with state := .publicRow ty }, hnext, ?_, rfl⟩
      rw [slot?_updateParticipant, if_pos rfl, hslot]
      rfl
    · apply Or.inl
      apply hkept
      rw [slot?_updateParticipant, if_neg heq]
      exact hslot
  | _ => exact .inl (hkept hslot)

/-- A public participant stays public. -/
theorem public_step (h : op.apply registry = some after) {ty : TypeId}
    (hpublic : registry.slotState symbol declaration = some (.publicRow ty)) :
    after.slotState symbol declaration = some (.publicRow ty) := by
  rcases slotState_step h hpublic (by simp) with hsame | ⟨_, _, _, _, _, _, hwaiting, _⟩
  · exact hsame
  · cases hwaiting

/-! ## §5 Nested fills -/

/-- Whose body an open fill belongs to. -/
abbrev OpenFill := SymbolId × ValueStorageId

/-- The open fills after an operation; a completion has to close the innermost fill. -/
def fillStep (op : FunctionGroupOp Ticket) (fills : List OpenFill) : Option (List OpenFill) :=
  match op with
  | .beginBody symbol declaration _ _ => some ((symbol, declaration) :: fills)
  | .finishBody symbol declaration _ =>
    match fills with
    | [] => none
    | fill :: outer => if fill = (symbol, declaration) then some outer else none
  | _ => some fills

/-- **Properly nested fills.** A completion closes the innermost fill, and either every fill is
closed, or no fill is opened inside itself. -/
def ProperlyNested (ops : List (FunctionGroupOp Ticket)) : Prop :=
  ∃ fills, run fillStep ops [] = some fills ∧ (fills = [] ∨
    ∀ front symbol declaration owner privateSelf back outer,
      ops = front ++ .beginBody symbol declaration owner privateSelf :: back →
      run fillStep front [] = some outer → (symbol, declaration) ∉ outer)

theorem fillStep_finish {symbol : SymbolId} {declaration : ValueStorageId} {ty : TypeId}
    {fills outer : List OpenFill}
    (h : fillStep (.finishBody symbol declaration ty : FunctionGroupOp Ticket) fills = some outer) :
    fills = (symbol, declaration) :: outer := by
  unfold fillStep at h
  cases fills with
  | nil => cases h
  | cons fill rest =>
    dsimp only at h
    split at h
    · rename_i heq
      cases h
      rw [heq]
    · cases h

/-- A fill is begun for a participant that waits for its body. -/
theorem beginBody_inv {owner : Option Ticket} {privateSelf : Option TypeId}
    (hsettled : registry.Settled)
    (h : (FunctionGroupOp.beginBody symbol declaration owner privateSelf).apply registry =
      some after) :
    after = { registry with
        activeFills := ⟨symbol, owner, privateSelf, none, false⟩ :: registry.activeFills } ∧
      registry.slotState symbol declaration = some .waitingForBody := by
  obtain ⟨draft, hdraft, hbegin⟩ := Option.bind_eq_some_iff.mp h
  split at hbegin
  · rename_i hopen
    cases hbegin
    obtain ⟨slot, hmem, hslot⟩ := any_eq_true.mp hopen.2
    obtain ⟨hdeclaration, hstate⟩ := of_decide_eq_true hslot
    subst hdeclaration
    exact ⟨rfl, slotState_eq_some_iff.mpr ⟨draft, slot, hdraft,
      slot?_of_mem (hsettled.nodup symbol draft hdraft) hmem, hstate⟩⟩
  · cases hbegin

/-- The other operations leave the stack of fills. -/
theorem activeFills_of_other (h : op.apply registry = some after)
    (hbegin : ∀ symbol declaration owner privateSelf,
      op ≠ .beginBody symbol declaration owner privateSelf)
    (hfinish : ∀ symbol declaration ty, op ≠ .finishBody symbol declaration ty)
    (hdemand : ∀ symbol, op ≠ .demand symbol) :
    after.activeFills = registry.activeFills := by
  have hreserve : ∀ target declaration reserved,
      (registry.reserve target declaration reserved).activeFills = registry.activeFills := by
    intro target declaration reserved
    unfold reserve
    cases registry.groups.lookup target with
    | none => rfl
    | some draft =>
      dsimp only
      split <;> rfl
  cases op with
  | register identity =>
    rcases register_eq_some_iff.mp h with ⟨rfl, _⟩ | ⟨_, _, byValue, _, rfl⟩ <;> rfl
  | seedInheritedPublication target participants callSignatures =>
    cases h
    unfold seedInheritedPublication
    cases registry.groups.lookup target with
    | none => rfl
    | some draft =>
      dsimp only
      split <;> rfl
  | installNamespacePayload target payload =>
    obtain ⟨draft, _, hpayload⟩ := Option.bind_eq_some_iff.mp h
    split at hpayload
    · cases hpayload
    · cases payload <;> cases hpayload <;> rfl
  | reservePublicRow target declaration ty =>
    cases h
    exact hreserve ..
  | reserveValidationOnly target declaration =>
    cases h
    exact hreserve ..
  | waitForBody target declaration =>
    cases h
    exact hreserve ..
  | beginBody target declaration owner privateSelf => exact (hbegin _ _ _ _ rfl).elim
  | finishBody target declaration ty => exact (hfinish _ _ _ rfl).elim
  | markUnavailable target cause owner =>
    obtain ⟨draft, _, hmark⟩ := Option.bind_eq_some_iff.mp h
    split at hmark <;> cases hmark <;> rfl
  | demand target => exact (hdemand _ rfl).elim
  | markPublished target ty =>
    obtain ⟨draft, _, hmark⟩ := Option.bind_eq_some_iff.mp h
    split at hmark <;> cases hmark <;> rfl

/-- The body of the participant demanded a group that has no value. -/
def BodyMissedValue (ops : List (FunctionGroupOp Ticket)) (symbol : SymbolId)
    (declaration : ValueStorageId) : Prop :=
  ∃ front target back outer registry, ops = front ++ .demand target :: back ∧
    run fillStep front [] = some ((symbol, declaration) :: outer) ∧
    run FunctionGroupOp.apply front default = some registry ∧
    ((registry.demand target).1 = .unavailable ∨
      ∃ report, (registry.demand target).1 = .pending report)

/-- A frame that recorded a missing value. -/
def Missed (active : ActiveFunctionGroupFill Ticket) : Prop :=
  active.dependency.isSome ∨ active.dependencyUnavailable = true

theorem failure_of_missed {active : ActiveFunctionGroupFill Ticket} (h : Missed active)
    (symbol : SymbolId) : active.failure symbol ≠ none := by
  unfold ActiveFunctionGroupFill.failure
  rcases h with h | h
  · cases hdependency : active.dependency with
    | none => simp [hdependency] at h
    | some dependency =>
      dsimp only
      split <;> simp
  · cases active.dependency with
    | none => simp [h]
    | some dependency =>
      dsimp only
      split <;> simp

/-- **The open fills and their frames.** Each open fill is paired with its frame, and its
participant waits.  A body that missed a value still waits: its frame knows, or its group is
decided. -/
structure Tracked (ops : List (FunctionGroupOp Ticket)) (registry : FunctionGroupRegistry Ticket)
    (frames : List (OpenFill × ActiveFunctionGroupFill Ticket)) : Prop where
  fills : run fillStep ops [] = some (frames.map Prod.fst)
  active : registry.activeFills = frames.map Prod.snd
  nodup : (frames.map Prod.fst).Nodup
  waiting : ∀ fill ∈ frames.map Prod.fst,
    registry.slotState fill.1 fill.2 = some .waitingForBody
  missed : ∀ symbol declaration, BodyMissedValue ops symbol declaration →
    registry.slotState symbol declaration = some .waitingForBody ∧
      (registry.Decided symbol ∨
        ∃ active, ((symbol, declaration), active) ∈ frames ∧ Missed active)

variable {ops : List (FunctionGroupOp Ticket)}
  {frames : List (OpenFill × ActiveFunctionGroupFill Ticket)}

theorem slotState_congr (h : after.groups = registry.groups) :
    after.slotState symbol declaration = registry.slotState symbol declaration := by
  unfold slotState
  rw [h]

theorem decided_congr (h : after.groups = registry.groups) :
    after.Decided symbol ↔ registry.Decided symbol := by
  unfold Decided
  rw [h]

/-- A body missed a value before, or it just demanded one. -/
theorem bodyMissedValue_concat (hrun : run FunctionGroupOp.apply ops default = some registry)
    (h : BodyMissedValue (ops ++ [op]) symbol declaration) :
    BodyMissedValue ops symbol declaration ∨
      ∃ target outer, op = .demand target ∧
        run fillStep ops [] = some ((symbol, declaration) :: outer) ∧
        ((registry.demand target).1 = .unavailable ∨
          ∃ report, (registry.demand target).1 = .pending report) := by
  obtain ⟨front, target, back, outer, before, heq, hfills, hbefore, hanswer⟩ := h
  rcases eq_nil_or_concat back with rfl | ⟨back, last, rfl⟩
  · obtain ⟨rfl, hlast⟩ := append_inj' heq rfl
    cases hlast
    cases hrun.symm.trans hbefore
    exact .inr ⟨target, outer, rfl, hfills, hanswer⟩
  · rw [concat_eq_append, ← cons_append, ← append_assoc] at heq
    obtain ⟨rfl, _⟩ := append_inj' heq rfl
    exact .inl ⟨front, target, back, outer, before, rfl, hfills, hbefore, hanswer⟩

/-- What a body missed stays missed over an operation that is not a demand. -/
theorem bodyMissedValue_of_concat (hrun : run FunctionGroupOp.apply ops default = some registry)
    (hdemand : ∀ target, op ≠ .demand target)
    (h : BodyMissedValue (ops ++ [op]) symbol declaration) :
    BodyMissedValue ops symbol declaration := by
  rcases bodyMissedValue_concat hrun h with h | ⟨target, _, hop, _⟩
  · exact h
  · exact absurd hop (hdemand target)

section Tracking

variable (htracked : Tracked ops registry frames)
include htracked

theorem Tracked.begin (hrun : run FunctionGroupOp.apply ops default = some registry)
    (hsettled : registry.Settled) {owner : Option Ticket} {privateSelf : Option TypeId}
    (h : (FunctionGroupOp.beginBody symbol declaration owner privateSelf).apply registry =
      some after) (hfresh : (symbol, declaration) ∉ frames.map Prod.fst) :
    Tracked (ops ++ [.beginBody symbol declaration owner privateSelf]) after
      (((symbol, declaration), ⟨symbol, owner, privateSelf, none, false⟩) :: frames) := by
  obtain ⟨rfl, hwaiting⟩ := beginBody_inv hsettled h
  constructor
  · exact run_concat_of htracked.fills rfl
  · rw [map_cons, ← htracked.active]
  · exact nodup_cons.mpr ⟨hfresh, htracked.nodup⟩
  · intro fill hfill
    rcases mem_cons.mp hfill with rfl | hfill
    · exact hwaiting
    · exact htracked.waiting fill hfill
  · intro missedSymbol missedDeclaration hmissed
    obtain ⟨hslot, hframe⟩ := htracked.missed _ _
      (bodyMissedValue_of_concat hrun (fun _ => by simp) hmissed)
    refine ⟨hslot, hframe.imp_right ?_⟩
    rintro ⟨active, hmem, hknows⟩
    exact ⟨active, mem_cons_of_mem _ hmem, hknows⟩

theorem Tracked.finish (hrun : run FunctionGroupOp.apply ops default = some registry) {ty : TypeId}
    (h : (FunctionGroupOp.finishBody symbol declaration ty).apply registry = some after)
    {outerFills : List OpenFill}
    (hfills : fillStep (.finishBody symbol declaration ty : FunctionGroupOp Ticket)
      (frames.map Prod.fst) = some outerFills) :
    Tracked (ops ++ [.finishBody symbol declaration ty]) after frames.tail := by
  obtain ⟨active, outer, draft, slot, hactive, _, hdraft, _, hbuilding, _, hafter⟩ :=
    finishBody_inv h
  have hstack := fillStep_finish hfills
  have htop : ∃ rest, frames = ((symbol, declaration), active) :: rest := by
    have hheads := htracked.active.symm.trans hactive
    cases frames with
    | nil => cases hstack
    | cons top rest =>
      obtain ⟨hfill, _⟩ := cons.inj hstack
      obtain ⟨hframe, _⟩ := cons.inj hheads
      exact ⟨rest, by rw [← hfill, ← hframe]⟩
  obtain ⟨rest, rfl⟩ := htop
  obtain ⟨hclosed, hrest⟩ := nodup_cons.mp htracked.nodup
  have houter : outer = rest.map Prod.snd :=
    (cons.inj (hactive.symm.trans htracked.active)).2
  have hundecided : ¬ registry.Decided symbol := by
    rintro ⟨draft', hdraft', hstate⟩
    cases hdraft.symm.trans hdraft'
    exact hstate hbuilding
  -- a frame of the closed fill is the frame on top
  have hframe : ∀ frame, ((symbol, declaration), frame) ∈
      ((symbol, declaration), active) :: rest → frame = active := by
    intro frame hmem
    rcases mem_cons.mp hmem with heq | hmem
    · exact congrArg Prod.snd heq
    · exact absurd (mem_map_of_mem hmem) hclosed
  constructor
  · rw [tail_cons]
    apply run_concat_of htracked.fills
    simp [fillStep]
  · rw [tail_cons, ← houter]
    rcases hafter with ⟨_, _, rfl⟩ | ⟨_, rfl⟩ <;> rfl
  · exact hrest
  · intro fill hfill
    rw [tail_cons] at hfill
    have hwaits := htracked.waiting fill (mem_cons_of_mem _ hfill)
    rcases slotState_step h hwaits (by simp) with hsame | ⟨_, _, _, hop, _⟩
    · exact hsame
    · cases hop
      exact absurd hfill hclosed
  · intro missedSymbol missedDeclaration hmissed
    obtain ⟨hslot, hcause⟩ := htracked.missed _ _
      (bodyMissedValue_of_concat hrun (fun _ => by simp) hmissed)
    constructor
    · rcases slotState_step h hslot (by simp) with hsame |
        ⟨_, closed, _, hop, hclosedFrame, hclean, _, _⟩
      · exact hsame
      · -- a body that missed a value does not complete
        cases hop
        cases hactive.symm.trans hclosedFrame
        rcases hcause with hdecided | ⟨frame, hmem, hknows⟩
        · exact absurd hdecided hundecided
        · rw [hframe frame hmem] at hknows
          exact absurd hclean (failure_of_missed hknows _)
    · rcases hcause with hdecided | ⟨frame, hmem, hknows⟩
      · exact .inl (hdecided.step h)
      · rcases mem_cons.mp hmem with heq | hmem
        · -- the frame on top knows, so the group is decided now
          cases heq
          rcases hafter with ⟨cause, _, rfl⟩ | ⟨hclean, _⟩
          · left
            refine ⟨{ draft with state := .unavailable cause active.owner }, ?_, by simp⟩
            rw [lookup_setDraft, if_pos rfl]
          · exact absurd hclean (failure_of_missed hknows _)
        · exact .inr ⟨frame, hmem, hknows⟩

theorem Tracked.demand
    (hrun : run FunctionGroupOp.apply ops FunctionGroupRegistry.default = some registry)
    (target : SymbolId) :
    ∃ noted, Tracked (ops ++ [.demand target]) (registry.demand target).2 noted := by
  obtain ⟨note, hnote, hkeeps⟩ := @demand_activeFills Ticket registry target
  have hfst : (frames.modifyHead (fun frame => (frame.1, note frame.2))).map Prod.fst =
      frames.map Prod.fst := by
    cases frames <;> rfl
  refine ⟨frames.modifyHead (fun frame => (frame.1, note frame.2)), ?_⟩
  constructor
  · rw [hfst]
    exact run_concat_of htracked.fills rfl
  · rw [hnote, htracked.active]
    cases frames <;> rfl
  · rw [hfst]
    exact htracked.nodup
  · intro fill hfill
    rw [hfst] at hfill
    exact (slotState_congr groups_demand).trans (htracked.waiting fill hfill)
  · intro missedSymbol missedDeclaration hmissed
    rcases bodyMissedValue_concat hrun hmissed with hmissed | ⟨_, outer, hop, hfills, hanswer⟩
    · obtain ⟨hslot, hcause⟩ := htracked.missed _ _ hmissed
      refine ⟨(slotState_congr groups_demand).trans hslot, ?_⟩
      rcases hcause with hdecided | ⟨frame, hmem, hknows⟩
      · exact .inl ((decided_congr groups_demand).mpr hdecided)
      · cases frames with
        | nil => cases hmem
        | cons top rest =>
          rcases mem_cons.mp hmem with heq | hmem
          · subst heq
            exact .inr ⟨note frame, mem_cons_self, hkeeps frame hknows⟩
          · exact .inr ⟨frame, mem_cons_of_mem _ hmem, hknows⟩
    · -- the innermost body just demanded a missing value
      cases hop
      have hstack := Option.some.inj (htracked.fills.symm.trans hfills)
      cases frames with
      | nil => cases hstack
      | cons top rest =>
        obtain ⟨fill, active⟩ := top
        obtain ⟨rfl, _⟩ := cons.inj hstack
        have hwaiting := htracked.waiting (missedSymbol, missedDeclaration) mem_cons_self
        refine ⟨(slotState_congr groups_demand).trans hwaiting, .inr ⟨note active,
          mem_cons_self, ?_⟩⟩
        obtain ⟨noted, hnoted, hknows⟩ := demand_blocked htracked.active hanswer
        rw [hnote, htracked.active] at hnoted
        rw [(cons.inj hnoted).1]
        exact hknows

/-- **One operation**, with the fills that are open. -/
theorem Tracked.step (hrun : run FunctionGroupOp.apply ops default = some registry)
    (hsettled : registry.Settled) (h : op.apply registry = some after) {fills : List OpenFill}
    (hfills : run fillStep (ops ++ [op]) [] = some fills) (hnodup : fills.Nodup) :
    ∃ frames, Tracked (ops ++ [op]) after frames := by
  obtain ⟨before, hbefore, hfills⟩ := run_snoc hfills
  cases htracked.fills.symm.trans hbefore
  by_cases hbegin : ∃ symbol declaration owner privateSelf,
      op = .beginBody symbol declaration owner privateSelf
  · obtain ⟨symbol, declaration, owner, privateSelf, rfl⟩ := hbegin
    cases hfills
    exact ⟨_, htracked.begin hrun hsettled h (nodup_cons.mp hnodup).1⟩
  by_cases hfinish : ∃ symbol declaration ty, op = .finishBody symbol declaration ty
  · obtain ⟨symbol, declaration, ty, rfl⟩ := hfinish
    exact ⟨_, htracked.finish hrun h hfills⟩
  by_cases hdemand : ∃ target, op = .demand target
  · obtain ⟨target, rfl⟩ := hdemand
    cases h
    exact htracked.demand hrun target
  -- the other operations touch neither the stack nor a participant that waits
  push Not at hbegin hfinish hdemand
  have hsame : fillStep op (frames.map Prod.fst) = some (frames.map Prod.fst) := by
    cases op with
    | beginBody symbol declaration owner privateSelf => exact (hbegin _ _ _ _ rfl).elim
    | finishBody symbol declaration ty => exact (hfinish _ _ _ rfl).elim
    | _ => rfl
  have hslot : ∀ symbol declaration,
      registry.slotState symbol declaration = some .waitingForBody →
      after.slotState symbol declaration = some .waitingForBody := by
    intro symbol declaration hwaiting
    rcases slotState_step h hwaiting (by simp) with hsame | ⟨ty, _, _, hop, _⟩
    · exact hsame
    · exact absurd hop (hfinish symbol declaration ty)
  refine ⟨frames, run_concat_of htracked.fills hsame, ?_, htracked.nodup, ?_, ?_⟩
  · rw [activeFills_of_other h hbegin hfinish hdemand]
    exact htracked.active
  · exact fun fill hfill => hslot fill.1 fill.2 (htracked.waiting fill hfill)
  · intro symbol declaration hmissed
    obtain ⟨hwaiting, hcause⟩ :=
      htracked.missed _ _ (bodyMissedValue_of_concat hrun hdemand hmissed)
    exact ⟨hslot _ _ hwaiting, hcause.imp_left (fun hdecided => hdecided.step h)⟩

end Tracking

/-! ## §6 Runs -/

theorem settled_of_run (hrun : run FunctionGroupOp.apply ops default = some registry) :
    registry.Settled :=
  run_keeps Settled (fun _ _ _ hsettled h => hsettled.step h) settled_default hrun

/-- A fill that can not be completed any more: it is open twice, or its participant is public or
its group decided. -/
def Jammed (registry : FunctionGroupRegistry Ticket) (fills : List OpenFill) : Prop :=
  ¬ fills.Nodup ∨ ∃ fill ∈ fills, registry.Decided fill.1 ∨
    ∃ ty, registry.slotState fill.1 fill.2 = some (.publicRow ty)

/-- A fill that is jammed is never closed. -/
theorem Jammed.step {fills next : List OpenFill} (hjammed : Jammed registry fills)
    (h : op.apply registry = some after) (hfills : fillStep op fills = some next) :
    Jammed after next := by
  have hkeeps : ∀ fill : OpenFill, (registry.Decided fill.1 ∨
      ∃ ty, registry.slotState fill.1 fill.2 = some (.publicRow ty)) →
      after.Decided fill.1 ∨ ∃ ty, after.slotState fill.1 fill.2 = some (.publicRow ty) := by
    intro fill hdead
    rcases hdead with hdecided | ⟨ty, hpublic⟩
    · exact .inl (hdecided.step h)
    · exact .inr ⟨ty, public_step h hpublic⟩
  by_cases hfinish : ∃ symbol declaration ty, op = .finishBody symbol declaration ty
  · obtain ⟨symbol, declaration, ty, rfl⟩ := hfinish
    have hstack := fillStep_finish hfills
    subst hstack
    obtain ⟨active, outer, draft, slot, _, _, hdraft, hslot, hbuilding, hwaiting, hafter⟩ :=
      finishBody_inv h
    -- after its completion the participant is public or its group decided
    have hdone : after.Decided symbol ∨
        ∃ ty, after.slotState symbol declaration = some (.publicRow ty) := by
      rcases hafter with ⟨cause, _, rfl⟩ | ⟨_, rfl⟩
      · left
        refine ⟨{ draft with state := .unavailable cause active.owner }, ?_, by simp⟩
        rw [lookup_setDraft, if_pos rfl]
      · right
        refine ⟨ty, slotState_eq_some_iff.mpr
          ⟨draft.updateParticipant declaration (fun _ => .publicRow ty),
            { slot with state := .publicRow ty }, ?_, ?_, rfl⟩⟩
        · rw [lookup_setDraft, if_pos rfl]
        · rw [slot?_updateParticipant, if_pos rfl, hslot]
          rfl
    rcases hjammed with hdup | ⟨fill, hmem, hdead⟩
    · rw [nodup_cons, not_and_or, not_not] at hdup
      rcases hdup with hagain | hdup
      · exact .inr ⟨(symbol, declaration), hagain, hdone⟩
      · exact .inl hdup
    · rcases mem_cons.mp hmem with rfl | hmem
      · -- the completion asserts that the participant waits in a group that is built
        rcases hdead with ⟨draft', hdraft', hstate⟩ | ⟨ty', hpublic⟩
        · cases hdraft.symm.trans hdraft'
          exact absurd hbuilding hstate
        · obtain ⟨draft', slot', hdraft', hslot', hstate⟩ := slotState_eq_some_iff.mp hpublic
          cases hdraft.symm.trans hdraft'
          cases hslot.symm.trans hslot'
          cases hwaiting.symm.trans hstate
      · exact .inr ⟨fill, hmem, hkeeps fill hdead⟩
  · have hgrows : next = fills ∨ ∃ fill, next = fill :: fills := by
      cases op with
      | finishBody symbol declaration ty => exact (hfinish ⟨_, _, _, rfl⟩).elim
      | beginBody symbol declaration owner privateSelf =>
        cases hfills
        exact .inr ⟨_, rfl⟩
      | _ =>
        cases hfills
        exact .inl rfl
    rcases hjammed with hdup | ⟨fill, hmem, hdead⟩
    · rcases hgrows with rfl | ⟨_, rfl⟩
      · exact .inl hdup
      · exact .inl (fun hnodup => hdup (nodup_cons.mp hnodup).2)
    · rcases hgrows with rfl | ⟨_, rfl⟩
      · exact .inr ⟨fill, hmem, hkeeps fill hdead⟩
      · exact .inr ⟨fill, mem_cons_of_mem _ hmem, hkeeps fill hdead⟩

theorem Jammed.run {back : List (FunctionGroupOp Ticket)} {fills last : List OpenFill}
    (hjammed : Jammed registry fills) (hrun : run FunctionGroupOp.apply back registry = some after)
    (hfills : Lib.run fillStep back fills = some last) : Jammed after last := by
  induction back generalizing registry fills with
  | nil =>
    cases hrun
    cases hfills
    exact hjammed
  | cons op back ih =>
    obtain ⟨middle, hstep, hrest⟩ := Option.bind_eq_some_iff.mp hrun
    obtain ⟨open', hopen, hlast⟩ := Option.bind_eq_some_iff.mp hfills
    exact ih (hjammed.step hstep hopen) hrest hlast

/-- **In a properly nested run no fill is open twice.** -/
theorem ProperlyNested.nodup (hnested : ProperlyNested ops)
    (hrun : run FunctionGroupOp.apply ops default = some registry)
    {front back : List (FunctionGroupOp Ticket)} (hops : ops = front ++ back) :
    ∃ fills, run fillStep front [] = some fills ∧ fills.Nodup := by
  subst hops
  obtain ⟨last, hlast, hcase⟩ := hnested
  obtain ⟨fills, hfront, hback⟩ := run_split hlast
  obtain ⟨middle, hmiddle, hrest⟩ := run_split hrun
  refine ⟨fills, hfront, ?_⟩
  rcases hcase with rfl | hfresh
  · by_contra hdup
    rcases Jammed.run (.inl hdup) hrest hback with hdup | ⟨_, hmem, _⟩
    · exact hdup nodup_nil
    · cases hmem
  · clear hrest hmiddle hback hlast hrun
    -- each fill is fresh where it is begun
    refine run_induction (fun events fills => events <+: front → fills.Nodup)
      (fun _ => nodup_nil) ?_ hfront (prefix_refl _)
    intro events op before next hbefore ih hstep hprefix
    obtain ⟨rest, hrest⟩ := hprefix
    have hnodup := ih ⟨op :: rest, by rw [← hrest, append_assoc]; rfl⟩
    cases op with
    | beginBody symbol declaration owner privateSelf =>
      cases hstep
      refine nodup_cons.mpr ⟨?_, hnodup⟩
      apply hfresh events symbol declaration owner privateSelf (rest ++ back) before _ hbefore
      rw [← hrest]
      simp
    | finishBody symbol declaration ty =>
      have hstack := fillStep_finish hstep
      subst hstack
      exact (nodup_cons.mp hnodup).2
    | _ =>
      cases hstep
      exact hnodup

/-- A body that missed a value still waits. -/
theorem waiting_of_missed (hnested : ProperlyNested ops)
    (hrun : run FunctionGroupOp.apply ops default = some registry)
    (hmissed : BodyMissedValue ops symbol declaration) :
    registry.slotState symbol declaration = some .waitingForBody := by
  have htracked : ∃ frames, Tracked ops registry frames := by
    refine run_induction (fun events state => events <+: ops → ∃ frames, Tracked events state frames)
      ?_ ?_ hrun (prefix_refl _)
    · refine fun _ => ⟨[], ⟨rfl, rfl, nodup_nil, fun _ h => (not_mem_nil h).elim, ?_⟩⟩
      rintro _ _ ⟨front, target, back, _, _, heq, _⟩
      simp at heq
    · intro events op before after hbefore ih hstep hprefix
      obtain ⟨rest, hrest⟩ := hprefix
      obtain ⟨frames, htracked⟩ := ih ⟨op :: rest, by rw [← hrest, append_assoc]; rfl⟩
      obtain ⟨fills, hfills, hnodup⟩ := hnested.nodup hrun hrest.symm
      exact htracked.step hbefore (settled_of_run hbefore) hstep hfills hnodup
  obtain ⟨frames, htracked⟩ := htracked
  exact (htracked.missed _ _ hmissed).1

/-- A group has the participants that it was registered with. -/
theorem exists_registration (hrun : run FunctionGroupOp.apply ops default = some registry)
    (hdraft : registry.groups.lookup symbol = some draft) :
    ∃ identity, .register identity ∈ ops ∧ identity.symbol = symbol ∧
      draft.declarations = identity.participants := by
  refine run_induction (fun events state => ∀ draft, state.groups.lookup symbol = some draft →
    ∃ identity, .register identity ∈ events ∧ identity.symbol = symbol ∧
      draft.declarations = identity.participants) (by simp [default]) ?_ hrun draft hdraft
  intro events op before after _ ih hstep next hnext
  cases hlookup : before.groups.lookup symbol with
  | none =>
    obtain ⟨identity, rfl, hsymbol, rfl, _⟩ := lookup_new hstep hlookup hnext
    exact ⟨identity, by simp, hsymbol, declarations_ofIdentity identity⟩
  | some draft =>
    obtain ⟨next', hnext', hgroup⟩ := lookup_step hstep hlookup
    cases hnext.symm.trans hnext'
    obtain ⟨identity, hmem, hsymbol, hparticipants⟩ := ih draft hlookup
    exact ⟨identity, mem_append_left _ hmem, hsymbol, hgroup.identity.trans hparticipants⟩

/-- The signature that a public participant shows. -/
def publicRow? (registry : FunctionGroupRegistry Ticket) (symbol : SymbolId)
    (declaration : ValueStorageId) : Option TypeId :=
  (registry.slotState symbol declaration).bind FunctionParticipantState.row?

theorem publicRows_eq (hsettled : registry.Settled)
    (hdraft : registry.groups.lookup symbol = some draft) :
    draft.publicRows = draft.declarations.filterMap (registry.publicRow? symbol) := by
  unfold publicRows declarations
  rw [filterMap_map]
  apply filterMap_congr
  intro slot hmem
  have hslot := slot?_of_mem (hsettled.nodup symbol draft hdraft) hmem
  have hstate := slotState_eq_some_iff.mpr ⟨draft, slot, hdraft, hslot, rfl⟩
  rw [Function.comp_apply, publicRow?, hstate]
  rfl

/-- **`Ready` and `Unavailable` are permanent.** -/
theorem terminal_keeps (hsettled : registry.Settled) {more : List (FunctionGroupOp Ticket)}
    (hrun : run FunctionGroupOp.apply more registry = some after) :
    (∀ ty, (registry.demand symbol).1 = .ready ty → (after.demand symbol).1 = .ready ty) ∧
      ((registry.demand symbol).1 = .unavailable → (after.demand symbol).1 = .unavailable) := by
  have hstep : ∀ op (before next : FunctionGroupRegistry Ticket), before.Settled →
      FunctionGroupOp.apply op before = some next →
      (∀ ty, (before.demand symbol).1 = .ready ty → (next.demand symbol).1 = .ready ty) ∧
        ((before.demand symbol).1 = .unavailable → (next.demand symbol).1 = .unavailable) := by
    intro op before next hsettled hop
    simp only [demand_ready_iff, demand_unavailable_iff]
    constructor
    · rintro ty ⟨draft, hdraft, hstate⟩
      obtain ⟨draft', hdraft', hgroup⟩ := lookup_step hop hdraft
      have hterminal := hgroup.terminal (by simp [hstate])
        (fun ty h => hsettled.payload symbol draft ty hdraft h)
      exact ⟨draft', hdraft', hterminal.1 ty hstate⟩
    · rintro ⟨draft, hdraft, hstate⟩
      obtain ⟨draft', hdraft', hgroup⟩ := lookup_step hop hdraft
      have hopen : draft.state ≠ .building := by
        obtain ⟨cause, owner, hstate⟩ := hstate
        simp [hstate]
      have hterminal := hgroup.terminal hopen
        (fun ty h => hsettled.payload symbol draft ty hdraft h)
      exact ⟨draft', hdraft', hterminal.2 hstate⟩
  constructor
  · intro ty hready
    exact (run_keeps (fun state => state.Settled ∧ (state.demand symbol).1 = .ready ty)
      (fun op before next h hop => ⟨h.1.step hop, (hstep op before next h.1 hop).1 ty h.2⟩)
      ⟨hsettled, hready⟩ hrun).2
  · intro hunavailable
    exact (run_keeps (fun state => state.Settled ∧ (state.demand symbol).1 = .unavailable)
      (fun op before next h hop => ⟨h.1.step hop, (hstep op before next h.1 hop).2 h.2⟩)
      ⟨hsettled, hunavailable⟩ hrun).2

/-- **Where a value comes from.** A published group was complete when it was published. -/
theorem published_from (hrun : run FunctionGroupOp.apply ops default = some registry) {ty : TypeId}
    (hready : (registry.demand symbol).1 = .ready ty) :
    ∃ front back before draft, ops = front ++ .markPublished symbol ty :: back ∧
      run FunctionGroupOp.apply front default = some before ∧
      before.groups.lookup symbol = some draft ∧ draft.state = .building ∧ draft.Complete := by
  have hstart : ¬ ∃ draft, (default : FunctionGroupRegistry Ticket).groups.lookup symbol =
      some draft ∧ draft.state = .published ty := by
    simp [default]
  obtain ⟨front, op, back, before, after, hops, hbefore, hstep, hopen, next, hnext, hty⟩ :=
    run_origin (fun state : FunctionGroupRegistry Ticket =>
      ∃ draft, state.groups.lookup symbol = some draft ∧ draft.state = .published ty)
      hstart hrun (demand_ready_iff.mp hready)
  cases hlookup : before.groups.lookup symbol with
  | none =>
    obtain ⟨identity, _, _, rfl, _⟩ := lookup_new hstep hlookup hnext
    cases hty
  | some draft =>
    obtain ⟨next', hnext', hgroup⟩ := lookup_step hstep hlookup
    cases hnext.symm.trans hnext'
    obtain ⟨rfl, hbuilding, hcomplete⟩ :=
      hgroup.published (fun heq => hopen ⟨draft, hlookup, heq⟩) hty
    exact ⟨front, back, before, draft, hops, hbefore, hlookup, hbuilding, hcomplete⟩

end FunctionGroupRegistry

open FunctionGroupRegistry

/-- **Function groups publish once and only when complete.** In the state after any sequence of
operations a group that answers `Ready` was complete when it was published; the answers `Ready`
and `Unavailable` stay; a plan exists exactly where `mark_published` publishes, and lists the
public signatures in binder order and then the inherited ones; and when the fills are properly
nested, a participant whose body demanded a group without a value is never public. -/
theorem functionGroups_publish_once (ops : List (FunctionGroupOp Ticket))
    (registry : FunctionGroupRegistry Ticket)
    (hrun : run FunctionGroupOp.apply ops FunctionGroupRegistry.default = some registry) :
    (∀ symbol ty, (registry.demand symbol).1 = .ready ty →
      ∃ front back before draft, ops = front ++ .markPublished symbol ty :: back ∧
        run FunctionGroupOp.apply front FunctionGroupRegistry.default = some before ∧
        before.groups.lookup symbol = some draft ∧ draft.state = .building ∧ draft.Complete) ∧
    (∀ more later symbol, run FunctionGroupOp.apply more registry = some later →
      (∀ ty, (registry.demand symbol).1 = .ready ty → (later.demand symbol).1 = .ready ty) ∧
      ((registry.demand symbol).1 = .unavailable → (later.demand symbol).1 = .unavailable)) ∧
    (∀ symbol draft ty, registry.groups.lookup symbol = some draft →
      ((∃ plan, registry.publicationPlan symbol = some (some plan)) ↔
        draft.state = .building ∧ ∃ after, registry.markPublished symbol ty = some after ∧
          (after.demand symbol).1 = .ready ty) ∧
      ∀ plan, registry.publicationPlan symbol = some (some plan) →
        ∃ identity, .register identity ∈ ops ∧ identity.symbol = symbol ∧
          plan.participants = identity.participants ∧
          plan.callSignatures = identity.participants.filterMap (registry.publicRow? symbol) ++
            draft.inheritedCallSignatures) ∧
    (ProperlyNested ops → ∀ symbol declaration, BodyMissedValue ops symbol declaration →
      ∀ front back before, ops = front ++ back →
        run FunctionGroupOp.apply front FunctionGroupRegistry.default = some before →
        ∀ ty, before.slotState symbol declaration ≠ some (.publicRow ty)) := by
  have hsettled := settled_of_run hrun
  refine ⟨fun symbol ty hready => published_from hrun hready,
    fun more later symbol hmore => terminal_keeps hsettled hmore, ?_, ?_⟩
  · intro symbol draft ty hdraft
    refine ⟨?_, ?_⟩
    · rw [publicationPlan_spec hdraft]
      refine and_congr_right (fun hbuilding => ⟨fun hcomplete => ?_, ?_⟩)
      · refine ⟨_, markPublished_of_complete hdraft hbuilding hcomplete ty, ?_⟩
        rw [demand_ready_iff]
        exact ⟨_, by rw [lookup_setDraft, if_pos rfl], rfl⟩
      · rintro ⟨after, hmark, hready⟩
        obtain ⟨next, hnext, hty⟩ := demand_ready_iff.mp hready
        have hstep : (FunctionGroupOp.markPublished symbol ty).apply registry = some after := hmark
        obtain ⟨next', hnext', hgroup⟩ := lookup_step hstep hdraft
        cases hnext.symm.trans hnext'
        exact (hgroup.published (by simp [hbuilding]) hty).2.2
    · intro plan hplan
      obtain ⟨identity, hmem, hsymbol, hparticipants⟩ := exists_registration hrun hdraft
      obtain ⟨hdeclarations, hsignatures⟩ := eq_of_publicationPlan hdraft hplan
      refine ⟨identity, hmem, hsymbol, hdeclarations.trans hparticipants, ?_⟩
      rw [hsignatures, publicRows_eq hsettled hdraft, hparticipants]
  · intro hnested symbol declaration hmissed front back before hops hbefore ty hpublic
    subst hops
    obtain ⟨middle, hmiddle, hback⟩ := run_split hrun
    cases hbefore.symm.trans hmiddle
    -- a public row stays public, but the participant of the body still waits
    have hlast := run_keeps (fun state : FunctionGroupRegistry Ticket =>
      state.slotState symbol declaration = some (.publicRow ty))
      (fun _ _ _ h hstep => public_step hstep h) hpublic hback
    cases hlast.symm.trans (waiting_of_missed hnested hrun hmissed)

/-! ### A body that needs a group too early -/

/-- A function with two declarations that is merged with a namespace. -/
def merged : SymbolId := ⟨0, "Merged"⟩

/-- A function whose inferred return uses the merged one. -/
def dependent : SymbolId := ⟨0, "Dependent"⟩

/-- The body is filled while the merged function is still being built. -/
def beforeDemand : List (FunctionGroupOp Unit) :=
  [.register ⟨merged, "Merged", [⟨4⟩, ⟨7⟩], true⟩,
    .register ⟨dependent, "Dependent", [⟨12⟩], false⟩,
    .waitForBody dependent ⟨12⟩,
    .beginBody dependent ⟨12⟩ none none]

def afterDemand : List (FunctionGroupOp Unit) :=
  [.finishBody dependent ⟨12⟩ 99,
    .installNamespacePayload merged (.ready []),
    .reservePublicRow merged ⟨7⟩ 20,
    .reservePublicRow merged ⟨4⟩ 10,
    .markPublished merged 30]

def mergedOps : List (FunctionGroupOp Unit) := beforeDemand ++ .demand merged :: afterDemand

theorem properlyNested_mergedOps : ProperlyNested mergedOps := ⟨[], by decide +kernel, .inl rfl⟩

theorem bodyMissedValue_mergedOps : BodyMissedValue mergedOps dependent ⟨12⟩ := by
  obtain ⟨registry, hrun, hanswer⟩ := Option.map_eq_some_iff.mp (by decide +kernel :
    (run FunctionGroupOp.apply beforeDemand FunctionGroupRegistry.default).map
      (fun registry => (registry.demand merged).1) = some (.pending false))
  exact ⟨beforeDemand, merged, afterDemand, [], registry, rfl, by decide +kernel, hrun,
    .inr ⟨false, hanswer⟩⟩

/-- The merged function was complete when it was published, and the other one has no value. -/
theorem functionGroups_publish_once_merged :
    ∃ registry, run FunctionGroupOp.apply mergedOps FunctionGroupRegistry.default = some registry ∧
      (registry.demand merged).1 = .ready 30 ∧
      (∃ (before : FunctionGroupRegistry Unit) (draft : FunctionGroupDraft Unit),
        before.groups.lookup merged = some draft ∧ draft.state = .building ∧ draft.Complete) ∧
      registry.slotState dependent ⟨12⟩ ≠ some (.publicRow 99) := by
  obtain ⟨registry, hrun, hready⟩ := Option.map_eq_some_iff.mp (by decide +kernel :
    (run FunctionGroupOp.apply mergedOps FunctionGroupRegistry.default).map
      (fun registry => (registry.demand merged).1) = some (.ready 30))
  obtain ⟨hcomplete, _, _, hmissed⟩ := functionGroups_publish_once mergedOps registry hrun
  obtain ⟨_, _, before, draft, _, _, hdraft, hbuilding, hdone⟩ := hcomplete merged 30 hready
  refine ⟨registry, hrun, hready, ⟨before, draft, hdraft, hbuilding, hdone⟩, ?_⟩
  exact hmissed properlyNested_mergedOps dependent ⟨12⟩ bodyMissedValue_mergedOps mergedOps []
    registry (append_nil _).symm hrun 99

end Typokat.Check
