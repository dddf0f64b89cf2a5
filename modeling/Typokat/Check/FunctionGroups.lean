import Typokat.Lib.Transitions
import Typokat.Check.FlowNodes

/-!
# Function Groups (`checker/function_groups.rs`)

A function that is merged with a namespace, or declared more than once, is one value.  Its
group collects the signatures of its participants and the namespace payload, and publishes
the value once.  A participant without a return annotation waits for its body; the fill of a
body records whether it used a group that has no value yet.

An operation that panics in the source returns `none`.  The stack of active fills is a list,
the innermost fill first.

## Main Results

- `lookup_step` : what one operation can do to a group
-/

namespace Typokat.Check

open Types Option List

/-! ## §1 Groups -/

/-- A declaration that owns a value. -/
structure ValueStorageId where
  index : Nat
  deriving DecidableEq, Repr

structure FunctionGroupIdentity where
  symbol : SymbolId
  name : String
  participants : List ValueStorageId
  namespacePayloadRequired : Bool
  deriving DecidableEq, Repr

/-- The namespace side, before the group is published. -/
inductive FunctionNamespacePayload (Ticket : Type)
  | ready (properties : List PropertyType)
  | unavailable (owner : Option Ticket)
  deriving DecidableEq, Repr

inductive FunctionGroupUnavailableCause
  | signature
  | namespacePayload
  | inferredReturnCycle
  | inferredReturnDependency
  deriving DecidableEq, Repr

/-- The answer to a use of a symbol. -/
inductive FunctionGroupDemand
  | notGroup
  | ready (ty : TypeId)
  | pending (reportUse : Bool)
  | privateSelf (ty : TypeId)
  | unavailable
  deriving DecidableEq, Repr

/-- What the published object is made of. -/
structure FunctionGroupPublication where
  symbol : SymbolId
  participants : List ValueStorageId
  properties : List PropertyType
  callSignatures : List TypeId
  prepublishedParticipants : List ValueStorageId
  deriving DecidableEq, Repr

inductive FunctionGroupBodyCompletion (Ticket : Type)
  | ready
  | unavailable (cause : FunctionGroupUnavailableCause) (owner : Option Ticket)
  deriving DecidableEq, Repr

inductive NamespacePayloadState
  | missing
  | ready (properties : List PropertyType)
  | unavailable
  deriving DecidableEq, Repr

inductive FunctionGroupState (Ticket : Type)
  | building
  | published (ty : TypeId)
  | unavailable (cause : FunctionGroupUnavailableCause) (owner : Option Ticket)
  deriving DecidableEq, Repr

inductive FunctionParticipantState
  | unseen
  | publicRow (ty : TypeId)
  | validationOnly
  | waitingForBody
  deriving DecidableEq, Repr

structure FunctionParticipantSlot where
  declaration : ValueStorageId
  state : FunctionParticipantState
  deriving DecidableEq, Repr

structure FunctionGroupDraft (Ticket : Type) where
  symbol : SymbolId
  name : String
  participants : List FunctionParticipantSlot
  namespacePayloadRequired : Bool
  inheritedCallSignatures : List TypeId
  namespacePayload : NamespacePayloadState
  state : FunctionGroupState Ticket
  deriving DecidableEq, Repr

structure ActiveFunctionGroupFill (Ticket : Type) where
  symbol : SymbolId
  owner : Option Ticket
  privateSelf : Option TypeId
  dependency : Option SymbolId
  dependencyUnavailable : Bool
  deriving DecidableEq, Repr

structure FunctionGroupRegistry (Ticket : Type) where
  groups : FxHashMap SymbolId (FunctionGroupDraft Ticket)
  byValue : FxHashMap ValueStorageId SymbolId
  activeFills : List (ActiveFunctionGroupFill Ticket)

variable {Ticket : Type}

/-- A write to a participant that was not seen before. -/
def FunctionParticipantState.reserve (reserved : FunctionParticipantState) :
    FunctionParticipantState → FunctionParticipantState
  | .unseen => reserved
  | state => state

/-- The type of a public row. -/
def FunctionParticipantState.row? : FunctionParticipantState → Option TypeId
  | .publicRow ty => some ty
  | _ => none

/-- Is the participant still without a terminal state? -/
def FunctionParticipantSlot.isOpen (slot : FunctionParticipantSlot) : Bool :=
  match slot.state with
  | .unseen | .waitingForBody => true
  | .publicRow _ | .validationOnly => false

/-- Why a completed body makes its group unavailable, if it does. -/
def ActiveFunctionGroupFill.failure (active : ActiveFunctionGroupFill Ticket) (symbol : SymbolId) :
    Option FunctionGroupUnavailableCause :=
  match active.dependency with
  | some dependency =>
    if dependency = symbol then some .inferredReturnCycle else some .inferredReturnDependency
  | none => if active.dependencyUnavailable then some .inferredReturnDependency else none

namespace FunctionGroupDraft

/-- The draft of a group that was just registered. -/
def ofIdentity (identity : FunctionGroupIdentity) : FunctionGroupDraft Ticket where
  symbol := identity.symbol
  name := identity.name
  participants := identity.participants.map (fun declaration => ⟨declaration, .unseen⟩)
  namespacePayloadRequired := identity.namespacePayloadRequired
  inheritedCallSignatures := []
  namespacePayload := if identity.namespacePayloadRequired then .missing else .ready []
  state := .building

variable (draft : FunctionGroupDraft Ticket)

/-- The declarations of the participants, in binder order. -/
def declarations : List ValueStorageId :=
  draft.participants.map FunctionParticipantSlot.declaration

/-- `participants.iter_mut().find(..)`, then a write to the state of the slot. -/
def updateSlot (declaration : ValueStorageId)
    (write : FunctionParticipantState → FunctionParticipantState) :
    List FunctionParticipantSlot → List FunctionParticipantSlot
  | [] => []
  | slot :: slots =>
    if slot.declaration = declaration then { slot with state := write slot.state } :: slots
    else slot :: updateSlot declaration write slots

def updateParticipant (declaration : ValueStorageId)
    (write : FunctionParticipantState → FunctionParticipantState) : FunctionGroupDraft Ticket :=
  { draft with participants := updateSlot declaration write draft.participants }

/-- Take over signatures; the participants that they stand for are not public again. -/
def seed (participants : List ValueStorageId) (callSignatures : List TypeId) :
    FunctionGroupDraft Ticket :=
  participants.foldl
    (fun draft declaration => draft.updateParticipant declaration (.reserve .validationOnly))
    { draft with inheritedCallSignatures := callSignatures }

/-- The slot of a declaration. -/
def slot? (declaration : ValueStorageId) :
    Option FunctionParticipantSlot :=
  draft.participants.find? (fun slot => slot.declaration = declaration)

/-- `matches!(draft.state, FunctionGroupState::Building)`. -/
def isBuilding : Bool :=
  match draft.state with
  | .building => true
  | _ => false

/-- The properties of a payload that is ready. -/
def readyPayload : Option (List PropertyType) :=
  match draft.namespacePayload with
  | .ready properties => some properties
  | _ => none

/-- The signatures of the public participants, in binder order. -/
def publicRows : List TypeId :=
  draft.participants.filterMap (fun slot => slot.state.row?)

end FunctionGroupDraft

/-! ## §2 Operations -/

namespace FunctionGroupRegistry

/-- `FunctionGroupRegistry::default`. -/
def default : FunctionGroupRegistry Ticket := ⟨∅, ∅, []⟩

variable (registry : FunctionGroupRegistry Ticket)

variable (symbol : SymbolId)

/-- Write the draft of a group. -/
def setDraft (draft : FunctionGroupDraft Ticket) :
    FunctionGroupRegistry Ticket :=
  { registry with groups := registry.groups.insert symbol draft }

/-- The loop of `register` over the participants. -/
def claimValues (participants : List ValueStorageId) (byValue : FxHashMap ValueStorageId SymbolId) :
    Option (FxHashMap ValueStorageId SymbolId) :=
  participants.foldlM (fun byValue declaration =>
    if (byValue.lookup declaration).isNone then some (byValue.insert declaration symbol)
    else none) byValue

def register (identity : FunctionGroupIdentity) :
    Option (FunctionGroupRegistry Ticket) :=
  match registry.groups.lookup identity.symbol with
  | some existing =>
    if existing.name = identity.name ∧
        existing.namespacePayloadRequired = identity.namespacePayloadRequired ∧
        existing.declarations = identity.participants then some registry
    else none
  | none =>
    if identity.participants.isEmpty then none
    else do
      let byValue ← claimValues identity.symbol identity.participants registry.byValue
      some { registry with
        byValue, groups := registry.groups.insert identity.symbol (.ofIdentity identity) }

def registeredIdentity :
    Option FunctionGroupIdentity :=
  (registry.groups.lookup symbol).map (fun draft =>
    ⟨symbol, draft.name, draft.declarations, draft.namespacePayloadRequired⟩)

def seedInheritedPublication (participants : List ValueStorageId) (callSignatures : List TypeId) :
    FunctionGroupRegistry Ticket :=
  match registry.groups.lookup symbol with
  | none => registry
  | some draft =>
    if draft.isBuilding = false ∨ callSignatures.isEmpty ∨
        draft.inheritedCallSignatures.isEmpty = false then registry
    else registry.setDraft symbol (draft.seed participants callSignatures)

def installNamespacePayload (payload : FunctionNamespacePayload Ticket) :
    Option (FunctionGroupRegistry Ticket) := do
  let draft ← registry.groups.lookup symbol
  if draft.namespacePayload ≠ .missing then none
  else match payload with
    | .ready properties =>
      some (registry.setDraft symbol { draft with namespacePayload := .ready properties })
    | .unavailable owner =>
      some (registry.setDraft symbol { draft with
        namespacePayload := .unavailable, state := .unavailable .namespacePayload owner })

def namespacePayloadForValue (value : ValueStorageId) :
    Option (List PropertyType) := do
  let symbol ← registry.byValue.lookup value
  let draft ← registry.groups.lookup symbol
  draft.readyPayload

/-- What the three reservations share: while the group is built, a participant that was not
    seen gets a state. -/
def reserve (registry : FunctionGroupRegistry Ticket) (symbol : SymbolId)
    (declaration : ValueStorageId) (reserved : FunctionParticipantState) :
    FunctionGroupRegistry Ticket :=
  match registry.groups.lookup symbol with
  | none => registry
  | some draft =>
    if draft.isBuilding then
      registry.setDraft symbol (draft.updateParticipant declaration (.reserve reserved))
    else registry

def reservePublicRow (declaration : ValueStorageId) (ty : TypeId) :
    FunctionGroupRegistry Ticket :=
  registry.reserve symbol declaration (.publicRow ty)

def reserveValidationOnly (declaration : ValueStorageId) :
    FunctionGroupRegistry Ticket :=
  registry.reserve symbol declaration .validationOnly

def waitForBody (declaration : ValueStorageId) : FunctionGroupRegistry Ticket :=
  registry.reserve symbol declaration .waitingForBody

def beginBody (declaration : ValueStorageId) (owner : Option Ticket) (privateSelf : Option TypeId) :
    Option (FunctionGroupRegistry Ticket) := do
  let draft ← registry.groups.lookup symbol
  if draft.isBuilding ∧ draft.participants.any (fun slot =>
      slot.declaration = declaration ∧ slot.state = .waitingForBody) then
    some { registry with
      activeFills := ⟨symbol, owner, privateSelf, none, false⟩ :: registry.activeFills }
  else none

def finishBody (declaration : ValueStorageId) (completedTy : TypeId) :
    Option (FunctionGroupBodyCompletion Ticket × FunctionGroupRegistry Ticket) :=
  match registry.activeFills with
  | [] => none
  | active :: outer => do
    let registry := { registry with activeFills := outer }
    if active.symbol ≠ symbol then none
    else
      let draft ← registry.groups.lookup symbol
      let slot ← draft.slot? declaration
      if draft.isBuilding ∧ slot.state = .waitingForBody then
        match active.failure symbol with
        | some cause =>
          some (.unavailable cause active.owner,
            registry.setDraft symbol { draft with state := .unavailable cause active.owner })
        | none =>
          some (.ready, registry.setDraft symbol
            (draft.updateParticipant declaration (fun _ => .publicRow completedTy)))
      else none

def markUnavailable (cause : FunctionGroupUnavailableCause) (owner : Option Ticket) :
    Option (FunctionGroupRegistry Ticket) := do
  let draft ← registry.groups.lookup symbol
  match draft.state with
  | .published _ => some registry
  | _ => some (registry.setDraft symbol { draft with state := .unavailable cause owner })

/-- Write to the innermost fill, if there is one. -/
def noteInnermost (note : ActiveFunctionGroupFill Ticket → ActiveFunctionGroupFill Ticket) :
    FunctionGroupRegistry Ticket :=
  { registry with activeFills := registry.activeFills.modifyHead note }

def demand :
    FunctionGroupDemand × FunctionGroupRegistry Ticket :=
  match (registry.groups.lookup symbol).map FunctionGroupDraft.state with
  | none => (.notGroup, registry)
  | some (.published ty) => (.ready ty, registry)
  | some (.unavailable _ _) =>
    (.unavailable, registry.noteInnermost
      (fun active => { active with dependencyUnavailable := true }))
  | some .building =>
    match registry.activeFills with
    | [] => (.pending true, registry)
    | active :: _ =>
      match (if active.symbol = symbol then active.privateSelf else none) with
      | some privateSelf => (.privateSelf privateSelf, registry)
      | none =>
        (.pending false, registry.noteInnermost (fun active =>
          { active with dependency := some (active.dependency.getD symbol) }))

def publicationPlan :
    Option (Option FunctionGroupPublication) := do
  let draft ← registry.groups.lookup symbol
  some (do
    guard draft.isBuilding
    let properties ← draft.readyPayload
    guard (draft.participants.any FunctionParticipantSlot.isOpen = false)
    let callSignatures := draft.publicRows ++ draft.inheritedCallSignatures
    guard (callSignatures.isEmpty = false)
    some {
      symbol := draft.symbol
      participants := draft.declarations
      properties, callSignatures
      prepublishedParticipants := (draft.participants.filter (fun slot =>
        slot.state = .validationOnly)).map FunctionParticipantSlot.declaration })

def markPublished (ty : TypeId) :
    Option (FunctionGroupRegistry Ticket) := do
  let draft ← registry.groups.lookup symbol
  if draft.isBuilding = false ∨ draft.readyPayload.isNone ∨
      draft.participants.any FunctionParticipantSlot.isOpen ∨
      (draft.inheritedCallSignatures.isEmpty ∧
        draft.participants.any (fun slot => slot.state.row?.isSome) = false) then some registry
  else some (registry.setDraft symbol { draft with state := .published ty })

def isWaitingFor (declaration : ValueStorageId) : Bool :=
  (registry.groups.lookup symbol).any (fun draft =>
    draft.isBuilding && draft.participants.any (fun slot =>
      slot.declaration = declaration ∧ slot.state = .waitingForBody))

/-- A group without a value is intercepted before the flow walk. -/
def requiresDemandIntercept : Bool :=
  (registry.groups.lookup symbol).any (fun draft =>
    match draft.state with
    | .published _ => false
    | _ => true)

def symbolForValue (declaration : ValueStorageId) :
    Option SymbolId :=
  registry.byValue.lookup declaration

end FunctionGroupRegistry

/-! ## §3 Sequences of operations -/

/-- The operations that write to the registry. -/
inductive FunctionGroupOp (Ticket : Type)
  | register (identity : FunctionGroupIdentity)
  | seedInheritedPublication (symbol : SymbolId) (participants : List ValueStorageId)
      (callSignatures : List TypeId)
  | installNamespacePayload (symbol : SymbolId) (payload : FunctionNamespacePayload Ticket)
  | reservePublicRow (symbol : SymbolId) (declaration : ValueStorageId) (ty : TypeId)
  | reserveValidationOnly (symbol : SymbolId) (declaration : ValueStorageId)
  | waitForBody (symbol : SymbolId) (declaration : ValueStorageId)
  | beginBody (symbol : SymbolId) (declaration : ValueStorageId) (owner : Option Ticket)
      (privateSelf : Option TypeId)
  | finishBody (symbol : SymbolId) (declaration : ValueStorageId) (completedTy : TypeId)
  | markUnavailable (symbol : SymbolId) (cause : FunctionGroupUnavailableCause)
      (owner : Option Ticket)
  | demand (symbol : SymbolId)
  | markPublished (symbol : SymbolId) (ty : TypeId)
  deriving Repr

/-- The registry after an operation; `none` when the operation panics. -/
def FunctionGroupOp.apply (op : FunctionGroupOp Ticket) (registry : FunctionGroupRegistry Ticket) :
    Option (FunctionGroupRegistry Ticket) :=
  match op with
  | register identity => registry.register identity
  | seedInheritedPublication symbol participants callSignatures =>
    some (registry.seedInheritedPublication symbol participants callSignatures)
  | installNamespacePayload symbol payload => registry.installNamespacePayload symbol payload
  | reservePublicRow symbol declaration ty => some (registry.reservePublicRow symbol declaration ty)
  | reserveValidationOnly symbol declaration =>
    some (registry.reserveValidationOnly symbol declaration)
  | waitForBody symbol declaration => some (registry.waitForBody symbol declaration)
  | beginBody symbol declaration owner privateSelf =>
    registry.beginBody symbol declaration owner privateSelf
  | finishBody symbol declaration completedTy =>
    (registry.finishBody symbol declaration completedTy).map Prod.snd
  | markUnavailable symbol cause owner => registry.markUnavailable symbol cause owner
  | demand symbol => some (registry.demand symbol).2
  | markPublished symbol ty => registry.markPublished symbol ty

/-! ## §4 Slots and drafts -/

namespace FunctionGroupDraft

variable {draft : FunctionGroupDraft Ticket} {declaration other : ValueStorageId}
  {write : FunctionParticipantState → FunctionParticipantState}

theorem isBuilding_iff : draft.isBuilding = true ↔ draft.state = .building := by
  unfold isBuilding
  cases draft.state <;> simp

theorem map_declaration_updateSlot (slots : List FunctionParticipantSlot) :
    (updateSlot declaration write slots).map FunctionParticipantSlot.declaration =
      slots.map FunctionParticipantSlot.declaration := by
  induction slots with
  | nil => rfl
  | cons slot slots ih =>
    rw [updateSlot]
    split
    · rfl
    · rw [map_cons, map_cons, ih]

@[simp] theorem declarations_updateParticipant :
    (draft.updateParticipant declaration write).declarations = draft.declarations :=
  map_declaration_updateSlot _

/-- An update changes the slot of its declaration only. -/
theorem slot?_updateParticipant : (draft.updateParticipant declaration write).slot? other =
    if declaration = other then (draft.slot? declaration).map (fun slot =>
      { slot with state := write slot.state }) else draft.slot? other := by
  unfold slot? updateParticipant
  induction draft.participants with
  | nil => simp [updateSlot]
  | cons slot slots ih =>
    rw [updateSlot]
    by_cases hdeclaration : slot.declaration = declaration
    · by_cases hother : declaration = other
      · subst hother
        simp [hdeclaration]
      · simp [hdeclaration, hother]
    · rw [if_neg hdeclaration, find?_cons, find?_cons, find?_cons, ih]
      by_cases hother : slot.declaration = other
      · have hne : declaration ≠ other := fun heq => hdeclaration (hother.trans heq.symm)
        simp [hother, hne]
      · simp [hother, hdeclaration]

/-- Participants are declared once, so every one of them is the slot of its declaration. -/
theorem slot?_of_mem (hnodup : draft.declarations.Nodup) {slot : FunctionParticipantSlot}
    (hmem : slot ∈ draft.participants) : draft.slot? slot.declaration = some slot := by
  unfold slot?
  unfold declarations at hnodup
  generalize draft.participants = slots at hnodup hmem
  induction slots with
  | nil => cases hmem
  | cons first slots ih =>
    rw [map_cons, nodup_cons] at hnodup
    rcases mem_cons.mp hmem with heq | hmem
    · subst heq
      simp
    · have hne : first.declaration ≠ slot.declaration :=
        fun heq => hnodup.1 (heq ▸ mem_map_of_mem hmem)
      simpa [hne] using ih hnodup.2 hmem

/-- The namespace payload is ready, every participant is public or validation-only, and there is
    a signature. -/
structure Complete (draft : FunctionGroupDraft Ticket) : Prop where
  payload : ∃ properties, draft.namespacePayload = .ready properties
  terminal : ∀ slot ∈ draft.participants,
    (∃ ty, slot.state = .publicRow ty) ∨ slot.state = .validationOnly
  signature : draft.inheritedCallSignatures ≠ [] ∨
    ∃ slot ∈ draft.participants, ∃ ty, slot.state = .publicRow ty

theorem readyPayload_eq_some_iff {properties : List PropertyType} :
    draft.readyPayload = some properties ↔ draft.namespacePayload = .ready properties := by
  unfold readyPayload
  cases draft.namespacePayload <;> simp

theorem isOpen_eq_false_iff {slot : FunctionParticipantSlot} : slot.isOpen = false ↔
    (∃ ty, slot.state = .publicRow ty) ∨ slot.state = .validationOnly := by
  unfold FunctionParticipantSlot.isOpen
  cases slot.state <;> simp

theorem row?_eq_some_iff {state : FunctionParticipantState} {ty : TypeId} :
    state.row? = some ty ↔ state = .publicRow ty := by
  unfold FunctionParticipantState.row?
  cases state <;> simp

theorem any_isOpen_eq_false_iff : draft.participants.any FunctionParticipantSlot.isOpen = false ↔
    ∀ slot ∈ draft.participants,
      (∃ ty, slot.state = .publicRow ty) ∨ slot.state = .validationOnly := by
  simp only [List.any_eq_false, Bool.not_eq_true, isOpen_eq_false_iff]

theorem publicRows_ne_nil_iff : draft.publicRows ≠ [] ↔
    ∃ slot ∈ draft.participants, ∃ ty, slot.state = .publicRow ty := by
  unfold publicRows
  rw [ne_eq, filterMap_eq_nil_iff]
  simp [eq_none_iff_forall_ne_some, row?_eq_some_iff]

theorem complete_iff : draft.Complete ↔ (draft.readyPayload.isSome = true ∧
    draft.participants.any FunctionParticipantSlot.isOpen = false ∧
    (draft.publicRows ++ draft.inheritedCallSignatures).isEmpty = false) := by
  have hsignature : (draft.publicRows ++ draft.inheritedCallSignatures).isEmpty = false ↔
      draft.inheritedCallSignatures ≠ [] ∨
        ∃ slot ∈ draft.participants, ∃ ty, slot.state = .publicRow ty := by
    rw [← publicRows_ne_nil_iff, ← Bool.not_eq_true, List.isEmpty_iff, List.append_eq_nil_iff,
      not_and_or, or_comm]
  rw [hsignature, any_isOpen_eq_false_iff, isSome_iff_exists]
  simp only [readyPayload_eq_some_iff]
  exact ⟨fun h => ⟨h.payload, h.terminal, h.signature⟩, fun h => ⟨h.1, h.2.1, h.2.2⟩⟩

/-- Only participants that were not seen before got a state. -/
structure Reserved (draft next : FunctionGroupDraft Ticket) : Prop where
  declarations : next.declarations = draft.declarations
  state : next.state = draft.state
  payload : next.namespacePayload = draft.namespacePayload
  kept : ∀ declaration slot, draft.slot? declaration = some slot → slot.state ≠ .unseen →
    next.slot? declaration = some slot

theorem Reserved.trans {middle next : FunctionGroupDraft Ticket} (h : draft.Reserved middle)
    (h' : middle.Reserved next) : draft.Reserved next where
  declarations := h'.declarations.trans h.declarations
  state := h'.state.trans h.state
  payload := h'.payload.trans h.payload
  kept declaration slot hslot hseen :=
    h'.kept declaration slot (h.kept declaration slot hslot hseen) hseen

theorem reserved_updateParticipant (reserved : FunctionParticipantState) :
    draft.Reserved (draft.updateParticipant declaration (.reserve reserved)) where
  declarations := declarations_updateParticipant
  state := rfl
  payload := rfl
  kept other slot hslot hseen := by
    rw [slot?_updateParticipant]
    split
    · rename_i heq
      subst heq
      rw [hslot, map_some]
      obtain ⟨declaration, state⟩ := slot
      cases state with
      | unseen => exact absurd rfl hseen
      | publicRow _ | validationOnly | waitingForBody => rfl
    · exact hslot

theorem reserved_seed (participants : List ValueStorageId) (callSignatures : List TypeId) :
    draft.Reserved (draft.seed participants callSignatures) := by
  have hstart : draft.Reserved { draft with inheritedCallSignatures := callSignatures } :=
    ⟨rfl, rfl, rfl, fun _ _ hslot _ => hslot⟩
  unfold seed
  generalize { draft with inheritedCallSignatures := callSignatures } = start at hstart
  induction participants generalizing start with
  | nil => exact hstart
  | cons declaration participants ih =>
    exact ih _ (hstart.trans (reserved_updateParticipant _))

end FunctionGroupDraft

/-! ## §5 What an operation can do -/

namespace FunctionGroupRegistry

variable {registry after : FunctionGroupRegistry Ticket} {op : FunctionGroupOp Ticket}
  {symbol other : SymbolId} {draft : FunctionGroupDraft Ticket} {declaration : ValueStorageId}

theorem lookup_setDraft : (registry.setDraft symbol draft).groups.lookup other =
    if symbol = other then some draft else registry.groups.lookup other := by
  unfold setDraft
  split
  · rename_i heq
    rw [heq, Finmap.lookup_insert]
  · rename_i hne
    exact Finmap.lookup_insert_of_ne _ (Ne.symm hne)

/-- What an operation can do to the draft of a registered group. -/
inductive GroupStep (registry : FunctionGroupRegistry Ticket) (op : FunctionGroupOp Ticket)
    (symbol : SymbolId) (draft : FunctionGroupDraft Ticket) : FunctionGroupDraft Ticket → Prop
  | keep : GroupStep registry op symbol draft draft
  | reserve {next} : draft.state = .building → draft.Reserved next →
      GroupStep registry op symbol draft next
  | installReady (properties) : draft.namespacePayload = .missing →
      GroupStep registry op symbol draft { draft with namespacePayload := .ready properties }
  | installUnavailable (owner) : draft.namespacePayload = .missing →
      GroupStep registry op symbol draft { draft with
        namespacePayload := .unavailable, state := .unavailable .namespacePayload owner }
  | bodyReady {active outer declaration slot} (ty) : registry.activeFills = active :: outer →
      active.failure symbol = none → op = .finishBody symbol declaration ty →
      draft.state = .building → draft.slot? declaration = some slot →
      slot.state = .waitingForBody →
      GroupStep registry op symbol draft (draft.updateParticipant declaration (fun _ => .publicRow ty))
  | bodyUnavailable {active outer} (cause) : registry.activeFills = active :: outer →
      draft.state = .building →
      GroupStep registry op symbol draft { draft with state := .unavailable cause active.owner }
  | markUnavailable (cause owner) : (∀ ty, draft.state ≠ .published ty) →
      GroupStep registry op symbol draft { draft with state := .unavailable cause owner }
  | publish (ty) : op = .markPublished symbol ty → draft.state = .building → draft.Complete →
      GroupStep registry op symbol draft { draft with state := .published ty }

/-- A demand changes the innermost fill only. -/
@[simp] theorem groups_demand : (registry.demand symbol).2.groups = registry.groups := by
  unfold demand
  cases (registry.groups.lookup symbol).map FunctionGroupDraft.state with
  | none => rfl
  | some state =>
    cases state with
    | published _ | unavailable _ _ => rfl
    | building =>
      cases registry.activeFills with
      | nil => rfl
      | cons active outer =>
        dsimp only
        cases (if active.symbol = symbol then active.privateSelf else none) <;> rfl

/-- The guards of `mark_published` hold exactly of a complete group that is being built. -/
theorem publishes_iff : (¬ (draft.isBuilding = false ∨ draft.readyPayload.isNone ∨
      draft.participants.any FunctionParticipantSlot.isOpen ∨
      (draft.inheritedCallSignatures.isEmpty ∧
        draft.participants.any (fun slot => slot.state.row?.isSome) = false))) ↔
    draft.state = .building ∧ draft.Complete := by
  have hrows : draft.participants.any (fun slot => slot.state.row?.isSome) = false ↔
      draft.publicRows = [] := by
    rw [List.any_eq_false, FunctionGroupDraft.publicRows, List.filterMap_eq_nil_iff]
    simp
  rw [hrows, FunctionGroupDraft.complete_iff, ← FunctionGroupDraft.isBuilding_iff]
  simp only [not_or, Bool.not_eq_false, isNone_iff_eq_none, Bool.not_eq_true,
    ← isSome_iff_ne_none, List.isEmpty_iff, List.isEmpty_eq_false_iff, ne_eq,
    List.append_eq_nil_iff, and_comm (a := draft.publicRows = [])]

/-- A write to the draft of one group leaves the others. -/
theorem lookup_of_setDraft {target : SymbolId} {written : FunctionGroupDraft Ticket}
    (hdraft : registry.groups.lookup symbol = some draft)
    (hstep : target = symbol → GroupStep registry op symbol draft written) :
    ∃ draft', (registry.setDraft target written).groups.lookup symbol = some draft' ∧
      GroupStep registry op symbol draft draft' := by
  rw [lookup_setDraft]
  split
  · rename_i heq
    exact ⟨written, rfl, hstep heq⟩
  · exact ⟨draft, hdraft, .keep⟩

theorem lookup_reserve (hdraft : registry.groups.lookup symbol = some draft) (target : SymbolId)
    (declaration : ValueStorageId) (reserved : FunctionParticipantState) :
    ∃ draft', (registry.reserve target declaration reserved).groups.lookup symbol = some draft' ∧
      GroupStep registry op symbol draft draft' := by
  unfold reserve
  cases htarget : registry.groups.lookup target with
  | none => exact ⟨draft, hdraft, .keep⟩
  | some current =>
    dsimp only
    split
    · rename_i hbuilding
      apply lookup_of_setDraft hdraft
      intro heq
      subst heq
      cases hdraft.symm.trans htarget
      exact .reserve (FunctionGroupDraft.isBuilding_iff.mp hbuilding)
        (FunctionGroupDraft.reserved_updateParticipant reserved)
    · exact ⟨draft, hdraft, .keep⟩

theorem register_eq_some_iff {identity : FunctionGroupIdentity} :
    registry.register identity = some after ↔
      (after = registry ∧ ∃ existing, registry.groups.lookup identity.symbol = some existing ∧
        existing.name = identity.name ∧
        existing.namespacePayloadRequired = identity.namespacePayloadRequired ∧
        existing.declarations = identity.participants) ∨
      (registry.groups.lookup identity.symbol = none ∧ identity.participants ≠ [] ∧
        ∃ byValue, claimValues identity.symbol identity.participants registry.byValue =
            some byValue ∧
          after = { registry with
            byValue, groups := registry.groups.insert identity.symbol (.ofIdentity identity) }) := by
  unfold register
  cases hlookup : registry.groups.lookup identity.symbol with
  | some existing => simp [and_comm, eq_comm]
  | none =>
    dsimp only
    constructor
    · intro h
      split at h
      · cases h
      · rename_i hempty
        obtain ⟨byValue, hclaim, hafter⟩ := bind_eq_some_iff.mp h
        cases hafter
        exact .inr ⟨rfl, fun heq => hempty (by rw [heq]; rfl), byValue, hclaim, rfl⟩
    · intro h
      rcases h with ⟨_, _, hnone, _⟩ | ⟨_, hne, byValue, hclaim, hafter⟩
      · cases hnone
      · rw [if_neg (by rwa [List.isEmpty_iff]), hclaim, hafter]
        rfl

/-- A completed body closes the innermost fill, which is one of its group. -/
theorem finishBody_inv {ty : TypeId}
    (h : (FunctionGroupOp.finishBody symbol declaration ty).apply registry = some after) :
    ∃ active outer draft slot, registry.activeFills = active :: outer ∧ active.symbol = symbol ∧
      registry.groups.lookup symbol = some draft ∧ draft.slot? declaration = some slot ∧
      draft.state = .building ∧ slot.state = .waitingForBody ∧
      ((∃ cause, active.failure symbol = some cause ∧
        after = ({ registry with activeFills := outer } : FunctionGroupRegistry Ticket).setDraft symbol
          { draft with state := .unavailable cause active.owner }) ∨
      (active.failure symbol = none ∧
        after = ({ registry with activeFills := outer } : FunctionGroupRegistry Ticket).setDraft symbol
          (draft.updateParticipant declaration (fun _ => .publicRow ty)))) := by
  obtain ⟨⟨completion, finished⟩, hfinish, hafter⟩ := map_eq_some_iff.mp h
  cases hafter
  unfold finishBody at hfinish
  cases hfills : registry.activeFills with
  | nil =>
    rw [hfills] at hfinish
    cases hfinish
  | cons active outer =>
    simp only [hfills] at hfinish
    split at hfinish
    · cases hfinish
    · rename_i hsymbol
      obtain ⟨draft, hdraft, hfinish⟩ := bind_eq_some_iff.mp hfinish
      obtain ⟨slot, hslot, hfinish⟩ := bind_eq_some_iff.mp hfinish
      split at hfinish
      · rename_i hopen
        refine ⟨active, outer, draft, slot, rfl, not_not.mp hsymbol, hdraft, hslot,
          FunctionGroupDraft.isBuilding_iff.mp hopen.1, hopen.2, ?_⟩
        cases hfailure : active.failure symbol with
        | some cause =>
          simp only [hfailure] at hfinish
          cases hfinish
          exact .inl ⟨cause, rfl, rfl⟩
        | none =>
          simp only [hfailure] at hfinish
          cases hfinish
          exact .inr ⟨rfl, rfl⟩
      · cases hfinish

/-- **What one operation can do to a registered group.** -/
theorem lookup_step (h : op.apply registry = some after)
    (hdraft : registry.groups.lookup symbol = some draft) :
    ∃ draft', after.groups.lookup symbol = some draft' ∧
      GroupStep registry op symbol draft draft' := by
  cases op with
  | register identity =>
    rcases register_eq_some_iff.mp h with ⟨rfl, _⟩ | ⟨hnone, _, byValue, _, rfl⟩
    · exact ⟨draft, hdraft, .keep⟩
    · have hne : symbol ≠ identity.symbol := by
        intro heq
        rw [heq, hnone] at hdraft
        cases hdraft
      exact ⟨draft, (Finmap.lookup_insert_of_ne _ hne).trans hdraft, .keep⟩
  | seedInheritedPublication target participants callSignatures =>
    cases h
    unfold seedInheritedPublication
    cases htarget : registry.groups.lookup target with
    | none => exact ⟨draft, hdraft, .keep⟩
    | some current =>
      dsimp only
      split
      · exact ⟨draft, hdraft, .keep⟩
      · rename_i hopen
        simp only [not_or, Bool.not_eq_false] at hopen
        -- only an open draft is seeded
        apply lookup_of_setDraft hdraft
        intro heq
        subst heq
        cases hdraft.symm.trans htarget
        exact .reserve (FunctionGroupDraft.isBuilding_iff.mp hopen.1)
          (FunctionGroupDraft.reserved_seed participants callSignatures)
  | installNamespacePayload target payload =>
    obtain ⟨current, htarget, hpayload⟩ := bind_eq_some_iff.mp h
    split at hpayload
    · cases hpayload
    · rename_i hmissing
      rw [ne_eq, not_not] at hmissing
      cases payload with
      | ready properties =>
        cases hpayload
        apply lookup_of_setDraft hdraft
        intro heq
        subst heq
        cases hdraft.symm.trans htarget
        exact .installReady properties hmissing
      | unavailable owner =>
        cases hpayload
        apply lookup_of_setDraft hdraft
        intro heq
        subst heq
        cases hdraft.symm.trans htarget
        exact .installUnavailable owner hmissing
  | reservePublicRow target declaration ty =>
    cases h
    exact lookup_reserve hdraft target declaration _
  | reserveValidationOnly target declaration =>
    cases h
    exact lookup_reserve hdraft target declaration _
  | waitForBody target declaration =>
    cases h
    exact lookup_reserve hdraft target declaration _
  | beginBody target declaration owner privateSelf =>
    obtain ⟨current, _, hbegin⟩ := bind_eq_some_iff.mp h
    split at hbegin
    · cases hbegin
      exact ⟨draft, hdraft, .keep⟩
    · cases hbegin
  | finishBody target declaration ty =>
    obtain ⟨active, outer, current, slot, hfills, _, htarget, hslot, hbuilding, hwaiting, hafter⟩ :=
      finishBody_inv h
    rcases hafter with ⟨cause, _, rfl⟩ | ⟨hfailure, rfl⟩
    · rw [lookup_setDraft]
      split
      · rename_i heq
        subst heq
        cases hdraft.symm.trans htarget
        exact ⟨_, rfl, .bodyUnavailable cause hfills hbuilding⟩
      · exact ⟨draft, hdraft, .keep⟩
    · rw [lookup_setDraft]
      split
      · rename_i heq
        subst heq
        cases hdraft.symm.trans htarget
        exact ⟨_, rfl, .bodyReady ty hfills hfailure rfl hbuilding hslot hwaiting⟩
      · exact ⟨draft, hdraft, .keep⟩
  | markUnavailable target cause owner =>
    obtain ⟨current, htarget, hmark⟩ := bind_eq_some_iff.mp h
    split at hmark
    · cases hmark
      exact ⟨draft, hdraft, .keep⟩
    · rename_i hpublished
      cases hmark
      apply lookup_of_setDraft hdraft
      intro heq
      subst heq
      cases hdraft.symm.trans htarget
      exact .markUnavailable cause owner hpublished
  | demand target =>
    cases h
    refine ⟨draft, ?_, .keep⟩
    rw [groups_demand]
    exact hdraft
  | markPublished target ty =>
    obtain ⟨current, htarget, hmark⟩ := bind_eq_some_iff.mp h
    split at hmark
    · cases hmark
      exact ⟨draft, hdraft, .keep⟩
    · rename_i hready
      cases hmark
      apply lookup_of_setDraft hdraft
      intro heq
      subst heq
      cases hdraft.symm.trans htarget
      obtain ⟨hbuilding, hcomplete⟩ := publishes_iff.mp hready
      exact .publish ty rfl hbuilding hcomplete

/-- A claimed value was free, and no value is claimed twice. -/
theorem claimValues_spec {participants : List ValueStorageId}
    {byValue claimed : FxHashMap ValueStorageId SymbolId}
    (h : claimValues symbol participants byValue = some claimed) :
    participants.Nodup ∧ ∀ declaration ∈ participants, byValue.lookup declaration = none := by
  induction participants generalizing byValue with
  | nil => exact ⟨nodup_nil, fun _ hmem => by cases hmem⟩
  | cons first participants ih =>
    obtain ⟨next, hfirst, hrest⟩ := bind_eq_some_iff.mp h
    dsimp only at hfirst
    split at hfirst
    · rename_i hfree
      cases hfirst
      obtain ⟨hnodup, hnone⟩ := ih hrest
      have hother : ∀ declaration ∈ participants,
          declaration ≠ first ∧ byValue.lookup declaration = none := by
        intro declaration hmem
        have hlookup := hnone declaration hmem
        by_cases heq : declaration = first
        · rw [heq, Finmap.lookup_insert] at hlookup
          cases hlookup
        · exact ⟨heq, (Finmap.lookup_insert_of_ne _ heq).symm.trans hlookup⟩
      refine ⟨nodup_cons.mpr ⟨fun hmem => (hother first hmem).1 rfl, hnodup⟩, ?_⟩
      intro declaration hmem
      rcases mem_cons.mp hmem with heq | hmem
      · rw [heq]
        exact isNone_iff_eq_none.mp hfree
      · exact (hother declaration hmem).2
    · cases hfirst

/-- **A group comes from its registration.** -/
theorem lookup_new (h : op.apply registry = some after)
    (hnone : registry.groups.lookup symbol = none) (hdraft : after.groups.lookup symbol = some draft) :
    ∃ identity, op = .register identity ∧ identity.symbol = symbol ∧
      draft = .ofIdentity identity ∧ identity.participants.Nodup := by
  -- writing a draft needs one that is there, so it makes no new group
  have hset : ∀ {target : SymbolId} {written : FunctionGroupDraft Ticket} {fills},
      (∃ current, registry.groups.lookup target = some current) →
      (({ registry with activeFills := fills } :
        FunctionGroupRegistry Ticket).setDraft target written).groups.lookup symbol ≠ some draft := by
    intro target written fills htarget hlookup
    obtain ⟨current, htarget⟩ := htarget
    rw [lookup_setDraft] at hlookup
    split at hlookup
    · rename_i heq
      rw [← heq, htarget] at hnone
      cases hnone
    · exact absurd (hnone.symm.trans hlookup) (by simp)
  have hsame : after.groups ≠ registry.groups := by
    intro heq
    rw [heq, hnone] at hdraft
    cases hdraft
  have hreserve : ∀ target declaration reserved,
      after ≠ registry.reserve target declaration reserved := by
    intro target declaration reserved heq
    subst heq
    unfold reserve at hdraft hsame
    cases htarget : registry.groups.lookup target with
    | none =>
      rw [htarget] at hsame
      exact hsame rfl
    | some current =>
      rw [htarget] at hdraft hsame
      dsimp only at hdraft hsame
      split at hdraft
      · exact hset ⟨current, htarget⟩ hdraft
      · exact absurd (hnone.symm.trans hdraft) (by simp)
  cases op with
  | register identity =>
    rcases register_eq_some_iff.mp h with ⟨rfl, _⟩ | ⟨_, _, byValue, hclaim, rfl⟩
    · exact absurd rfl hsame
    · by_cases heq : symbol = identity.symbol
      · subst heq
        rw [Finmap.lookup_insert] at hdraft
        exact ⟨identity, rfl, rfl, (some.inj hdraft).symm, (claimValues_spec hclaim).1⟩
      · rw [Finmap.lookup_insert_of_ne _ heq, hnone] at hdraft
        cases hdraft
  | seedInheritedPublication target participants callSignatures =>
    cases h
    unfold seedInheritedPublication at hdraft hsame
    cases htarget : registry.groups.lookup target with
    | none =>
      rw [htarget] at hsame
      exact absurd rfl hsame
    | some current =>
      rw [htarget] at hdraft
      dsimp only at hdraft
      split at hdraft
      · exact absurd (hnone.symm.trans hdraft) (by simp)
      · exact absurd hdraft (hset ⟨current, htarget⟩)
  | installNamespacePayload target payload =>
    obtain ⟨current, htarget, hpayload⟩ := bind_eq_some_iff.mp h
    split at hpayload
    · cases hpayload
    · cases payload <;> cases hpayload <;> exact absurd hdraft (hset ⟨current, htarget⟩)
  | reservePublicRow target declaration ty | reserveValidationOnly target declaration
  | waitForBody target declaration => exact (hreserve _ _ _ (some.inj h).symm).elim
  | beginBody target declaration owner privateSelf =>
    obtain ⟨current, _, hbegin⟩ := bind_eq_some_iff.mp h
    split at hbegin
    · cases hbegin
      exact absurd rfl hsame
    · cases hbegin
  | finishBody target declaration ty =>
    obtain ⟨active, outer, current, slot, _, _, htarget, _, _, _, hafter⟩ := finishBody_inv h
    rcases hafter with ⟨_, _, rfl⟩ | ⟨_, rfl⟩ <;> exact absurd hdraft (hset ⟨current, htarget⟩)
  | markUnavailable target cause owner =>
    obtain ⟨current, htarget, hmark⟩ := bind_eq_some_iff.mp h
    split at hmark
    · cases hmark
      exact absurd rfl hsame
    · cases hmark
      exact absurd hdraft (hset ⟨current, htarget⟩)
  | demand target =>
    cases h
    exact absurd groups_demand hsame
  | markPublished target ty =>
    obtain ⟨current, htarget, hmark⟩ := bind_eq_some_iff.mp h
    split at hmark
    · cases hmark
      exact absurd rfl hsame
    · cases hmark
      exact absurd hdraft (hset ⟨current, htarget⟩)

end FunctionGroupRegistry

end Typokat.Check
