import Mathlib.Data.Prod.Lex
import Mathlib.Data.BitVec
import Typokat.Lib.StableSort
import Typokat.Types.Repr

/-!
# Record Reservation and Replay (`typokat-check/src/check/checker/events.rs`)

The lexical walk reserves an event for each source site and record positions below it; the
semantic phases complete the positions in any order.  `finish` audits that every position
was completed and replays the records in the order of their reservations.

Records are opaque here: the store never looks into one.

## Main Results

- `EventStore.step_error` : an operation that fails changes nothing
- `EventStore.finish_cases` : what `finish` returns, in terms of the operations that ran
- `EventStore.replay_lossless` : replay loses nothing and does not depend on the order of the
  completions
-/

namespace Typokat.Check

open Types Lib Option List

/-! ## §1 The store -/

abbrev ModuleOrdinal := Nat

/-- Stable identity of one lexically reserved event. -/
abbrev EventId := Nat

/-- Stable completion capability for one record position in an event. -/
structure UserRecordTicket where
  event : EventId
  recordOrdinal : Nat
  deriving DecidableEq, Repr

/-- The total replay order. -/
structure EventKey where
  moduleOrdinal : ModuleOrdinal
  sourceStart : Nat
  eventOrdinal : Nat
  recordOrdinal : Nat
  deriving DecidableEq, Repr

namespace EventKey

/-- The fields of a key in the order in which they are compared. -/
def fields (key : EventKey) : Nat ×ₗ Nat ×ₗ Nat ×ₗ Nat :=
  toLex (key.moduleOrdinal, toLex (key.sourceStart, toLex (key.eventOrdinal, key.recordOrdinal)))

theorem fields_injective : Function.Injective fields := by
  rintro ⟨⟩ ⟨⟩ h
  simp only [fields, EmbeddingLike.apply_eq_iff_eq, Prod.mk.injEq] at h
  obtain ⟨rfl, rfl, rfl, rfl⟩ := h
  rfl

/-- The derived `Ord`: lexicographic in the order of the fields. -/
instance : LinearOrder EventKey := LinearOrder.lift' fields fields_injective

end EventKey

/-- An event always starts with one record ticket. -/
structure ReservedEvent where
  id : EventId
  primary : UserRecordTicket
  deriving DecidableEq, Repr

/-- `EVENT_RECORD_CAPACITY`: the width of the completion mask. -/
def eventRecordCapacity : Nat := 32

structure EventMeta where
  moduleOrdinal : ModuleOrdinal
  sourceStart : Nat
  eventOrdinal : Nat
  nextRecordOrdinal : Nat
  /-- one bit for each record position already completed -/
  completed : BitVec 32
  deriving DecidableEq, Repr

/-- The replay key of a position of the event. -/
def EventMeta.key (event : EventMeta) (recordOrdinal : Nat) : EventKey :=
  ⟨event.moduleOrdinal, event.sourceStart, event.eventOrdinal, recordOrdinal⟩

/-- `reserved_mask`. -/
def reservedMask (positions : Nat) : BitVec 32 :=
  if positions ≥ eventRecordCapacity then BitVec.allOnes 32
  else (1#32 <<< positions) - 1#32

inductive EventStoreError
  | unknownEvent (event : EventId)
  | unknownRecord (ticket : UserRecordTicket)
  | duplicateCompletion (ticket : UserRecordTicket)
  | recordCapacity (event : EventId)
  | unfinished (keys : List EventKey)
  deriving DecidableEq, Repr

structure EventStore (R : Type) where
  events : List EventMeta := []
  nextEventOrdinal : FxHashMap ModuleOrdinal Nat := ∅
  /-- records in completion order, each with the key of its position -/
  records : List (EventKey × R) := []

variable {R : Type}

namespace EventStore

variable (store : EventStore R)

/-- Reserve an event and its mandatory primary record position. -/
def reserveEvent (moduleOrdinal : ModuleOrdinal) (sourceStart : Nat) :
    ReservedEvent × EventStore R :=
  let eventOrdinal := (store.nextEventOrdinal.lookup moduleOrdinal).getD 0
  let id := store.events.length
  (⟨id, ⟨id, 0⟩⟩,
    { store with
      nextEventOrdinal := store.nextEventOrdinal.insert moduleOrdinal (eventOrdinal + 1)
      events := store.events ++ [⟨moduleOrdinal, sourceStart, eventOrdinal, 1, 0#32⟩] })

/-- Add another ordered record position to an existing event. -/
def reserveRecord (event : EventId) :
    Except EventStoreError UserRecordTicket × EventStore R :=
  match store.events[event]? with
  | none => (.error (.unknownEvent event), store)
  | some row =>
    if row.nextRecordOrdinal ≥ eventRecordCapacity then (.error (.recordCapacity event), store)
    else
      (.ok ⟨event, row.nextRecordOrdinal⟩,
        { store with
          events := store.events.set event
            { row with nextRecordOrdinal := row.nextRecordOrdinal + 1 } })

/-- Complete exactly one reserved position with zero or more ordered records. -/
def complete (ticket : UserRecordTicket) (records : List R) :
    Except EventStoreError Unit × EventStore R :=
  match store.events[ticket.event]? with
  | none => (.error (.unknownEvent ticket.event), store)
  | some row =>
    if ticket.recordOrdinal ≥ row.nextRecordOrdinal then (.error (.unknownRecord ticket), store)
    else
      let filled := 1#32 <<< ticket.recordOrdinal
      if row.completed &&& filled ≠ 0#32 then (.error (.duplicateCompletion ticket), store)
      else
        (.ok (),
          { store with
            events := store.events.set ticket.event { row with completed := row.completed ||| filled }
            records := store.records
              ++ records.map (fun record => (row.key ticket.recordOrdinal, record)) })

/-- The positions of an event that were reserved and never filled. -/
def unfinishedOf (row : EventMeta) : List EventKey :=
  if row.completed = reservedMask row.nextRecordOrdinal then []
  else ((List.range row.nextRecordOrdinal).filter (fun recordOrdinal =>
    row.completed &&& (1#32 <<< recordOrdinal) = 0#32)).map row.key

/-- Positions that were reserved and never filled, in replay-key order. -/
def unfinishedPositions : List EventKey :=
  (store.events.flatMap unfinishedOf).insertionSort (· ≤ ·)

/-- Replay completed records in their reserved total order. -/
def finish : Except EventStoreError (List (EventKey × R)) :=
  let unfinished := store.unfinishedPositions
  if !unfinished.isEmpty then .error (.unfinished unfinished)
  else .ok (sortByKey store.records)

end EventStore

/-! ## §2 Runs -/

/-- The operations of the store. -/
inductive EventOp (R : Type)
  | reserveEvent (moduleOrdinal : ModuleOrdinal) (sourceStart : Nat)
  | reserveRecord (event : EventId)
  | complete (ticket : UserRecordTicket) (records : List R)

/-- What an operation returns. -/
inductive EventResult
  | event (reserved : ReservedEvent)
  | record (result : Except EventStoreError UserRecordTicket)
  | completed (result : Except EventStoreError Unit)

/-- Whether an operation failed. -/
def EventResult.failed : EventResult → Bool
  | .event _ => false
  | .record (.ok _) => false
  | .record (.error _) => true
  | .completed (.ok _) => false
  | .completed (.error _) => true

/-- One operation. -/
def EventOp.step (store : EventStore R) : EventOp R → EventResult × EventStore R
  | .reserveEvent moduleOrdinal sourceStart =>
    let (reserved, store) := store.reserveEvent moduleOrdinal sourceStart
    (.event reserved, store)
  | .reserveRecord event =>
    let (result, store) := store.reserveRecord event
    (.record result, store)
  | .complete ticket records =>
    let (result, store) := store.complete ticket records
    (.completed result, store)

/-- Whether an operation reserves. -/
def EventOp.reserves : EventOp R → Bool
  | .complete _ _ => false
  | _ => true

/-- The tickets a run has been given and its calls of `complete` that succeeded, in order. -/
structure Ledger (R : Type) where
  issued : List UserRecordTicket := []
  filed : List (UserRecordTicket × List R) := []

/-- The ledger after an operation. -/
def Ledger.enter (ledger : Ledger R) : EventOp R → EventResult → Ledger R
  | _, .event reserved => { ledger with issued := ledger.issued ++ [reserved.primary] }
  | _, .record (.ok ticket) => { ledger with issued := ledger.issued ++ [ticket] }
  | .complete ticket records, .completed (.ok ()) =>
    { ledger with filed := ledger.filed ++ [(ticket, records)] }
  | _, _ => ledger

/-- One operation with its entry in the ledger. -/
def stepLedger (state : Ledger R × EventStore R) (op : EventOp R) : Ledger R × EventStore R :=
  (state.1.enter op (op.step state.2).1, (op.step state.2).2)

/-- A run from the empty store. -/
def runEvents (ops : List (EventOp R)) : Ledger R × EventStore R :=
  ops.foldl stepLedger ({}, {})

/-- The replay key of a ticket: module, source start and ordinal of its event, and its own
    ordinal. -/
def EventStore.keyOf (store : EventStore R) (ticket : UserRecordTicket) : EventKey :=
  ((store.events[ticket.event]?).map (fun row => row.key ticket.recordOrdinal)).getD ⟨0, 0, 0, 0⟩

/-! ## §3 Bits of the mask -/

theorem getLsbD_reservedMask {positions : Nat} (hpositions : positions ≤ eventRecordCapacity)
    {bit : Nat} (hbit : bit < 32) :
    (reservedMask positions).getLsbD bit = decide (bit < positions) := by
  have hall : ∀ positions ∈ range 33, ∀ bit ∈ range 32,
      (reservedMask positions).getLsbD bit = decide (bit < positions) := by decide +kernel
  exact hall positions (mem_range.mpr (Nat.lt_succ_of_le hpositions)) bit
    (mem_range.mpr hbit)

theorem and_bit_eq_zero_iff (mask : BitVec 32) {bit : Nat} (hbit : bit < 32) :
    mask &&& (1#32 <<< bit) = 0#32 ↔ mask.getLsbD bit = false := by
  constructor
  · intro h
    have hat := congrArg (fun x => BitVec.getLsbD x bit) h
    simpa [hbit] using hat
  · intro h
    refine BitVec.eq_of_getLsbD_eq (fun i hi => ?_)
    by_cases hib : i = bit
    · simp [hib, h]
    · simp [hi]
      omega

theorem getLsbD_or_bit (mask : BitVec 32) {bit other : Nat} (hbit : bit < 32) :
    (mask ||| (1#32 <<< bit)).getLsbD other = (mask.getLsbD other || decide (other = bit)) := by
  by_cases hother : other < 32
  · rw [BitVec.getLsbD_or, BitVec.getLsbD_shiftLeft]
    congr 1
    rw [Bool.eq_iff_iff]
    simp [hother]
    omega
  · rw [BitVec.getLsbD_of_ge _ _ (not_lt.mp hother), BitVec.getLsbD_of_ge _ _ (not_lt.mp hother)]
    simp
    omega

/-! ## §4 The invariant of a run -/

/-- The modules of the events in reservation order. -/
def EventStore.modules (store : EventStore R) : List ModuleOrdinal :=
  store.events.map EventMeta.moduleOrdinal

/-- The store accounts for what the ledger says happened. -/
structure Accounted (ledger : Ledger R) (store : EventStore R) : Prop where
  /-- an event is numbered among the events of its module -/
  ordinal : ∀ (i : Nat) (row : EventMeta), store.events[i]? = some row →
    row.eventOrdinal = (store.modules.take i).count row.moduleOrdinal
  next : ∀ moduleOrdinal, (store.nextEventOrdinal.lookup moduleOrdinal).getD 0
    = store.modules.count moduleOrdinal
  capacity : ∀ (i : Nat) (row : EventMeta), store.events[i]? = some row →
    row.nextRecordOrdinal ≤ eventRecordCapacity
  issued : ∀ ticket, ticket ∈ ledger.issued ↔
    ∃ row : EventMeta, store.events[ticket.event]? = some row ∧
      ticket.recordOrdinal < row.nextRecordOrdinal
  filed : ∀ ticket (row : EventMeta), store.events[ticket.event]? = some row →
    (row.completed.getLsbD ticket.recordOrdinal = true ↔
      ticket ∈ ledger.filed.map Prod.fst)
  filed_issued : ∀ ticket ∈ ledger.filed.map Prod.fst, ticket ∈ ledger.issued
  filed_nodup : (ledger.filed.map Prod.fst).Nodup
  records : store.records
    = ungroup (ledger.filed.map (fun call => (store.keyOf call.1, call.2)))

theorem accounted_empty : Accounted ({} : Ledger R) {} where
  ordinal := by simp
  next := by
    intro moduleOrdinal
    show ((∅ : FxHashMap ModuleOrdinal Nat).lookup moduleOrdinal).getD 0 = 0
    rw [Finmap.lookup_empty]
    rfl
  capacity := by simp
  issued := by simp
  filed := by simp
  filed_issued := by simp
  filed_nodup := nodup_nil
  records := rfl

/-- Replacing a row by one that agrees on a field keeps that column. -/
theorem map_set_of_eq {α β : Type} {f : α → β} {rows : List α} {i : Nat} {row row' : α}
    (hrow : rows[i]? = some row) (hf : f row' = f row) : (rows.set i row').map f = rows.map f := by
  refine ext_getElem? (fun j => ?_)
  rw [getElem?_map, getElem?_map, getElem?_set]
  split
  · rename_i hij
    subst hij
    split
    · rw [hrow, map_some, map_some, hf]
    · rename_i hlt
      rw [getElem?_eq_none_iff.mpr (not_lt.mp hlt)]
  · rfl

namespace EventStore

variable {store : EventStore R} {ledger : Ledger R}

section Records

variable {next : FxHashMap ModuleOrdinal Nat} {records : List (EventKey × R)}

/-- Appending an event keeps the keys of the tickets that exist. -/
theorem keyOf_append {rows : List EventMeta} {ticket : UserRecordTicket} {row : EventMeta}
    (hrow : store.events[ticket.event]? = some row) :
    keyOf { events := store.events ++ rows, nextEventOrdinal := next, records } ticket
      = store.keyOf ticket := by
  have hlt : ticket.event < store.events.length := (List.getElem?_eq_some_iff.mp hrow).1
  rw [keyOf, keyOf, List.getElem?_append_left hlt]

/-- Replacing an event by one with the same key keeps all keys. -/
theorem keyOf_set {i : Nat} {row row' : EventMeta} (hrow : store.events[i]? = some row)
    (hkey : row'.key = row.key) (ticket : UserRecordTicket) :
    keyOf { events := store.events.set i row', nextEventOrdinal := next, records } ticket
      = store.keyOf ticket := by
  have hcolumn := map_set_of_eq (f := EventMeta.key) hrow hkey
  have hat := congrArg (fun column : List (Nat → EventKey) => column[ticket.event]?) hcolumn
  simp only [getElem?_map] at hat
  unfold keyOf
  have hmap : ∀ row? : Option EventMeta,
      row?.map (fun row => row.key ticket.recordOrdinal)
        = (row?.map EventMeta.key).map (fun key => key ticket.recordOrdinal) := by
    intro row?
    cases row? <;> rfl
  rw [hmap, hmap, hat]

theorem modules_set {i : Nat} {row row' : EventMeta} (hrow : store.events[i]? = some row)
    (hmodule : row'.moduleOrdinal = row.moduleOrdinal) :
    modules { events := store.events.set i row', nextEventOrdinal := next, records }
      = store.modules :=
  map_set_of_eq hrow hmodule

end Records

end EventStore

section Steps

variable {store : EventStore R} {ledger : Ledger R}

theorem Accounted.row_of_filed (h : Accounted ledger store) {ticket : UserRecordTicket}
    (hfiled : ticket ∈ ledger.filed.map Prod.fst) :
    ∃ row, store.events[ticket.event]? = some row := by
  obtain ⟨row, hrow, _⟩ := (h.issued ticket).mp (h.filed_issued ticket hfiled)
  exact ⟨row, hrow⟩

theorem Accounted.reserveEvent (h : Accounted ledger store) (moduleOrdinal : ModuleOrdinal)
    (sourceStart : Nat) :
    Accounted { ledger with issued := ledger.issued ++ [⟨store.events.length, 0⟩] }
      (store.reserveEvent moduleOrdinal sourceStart).2 where
  ordinal := by
    intro i row hrow
    have hmodules : (store.reserveEvent moduleOrdinal sourceStart).2.modules
        = store.modules ++ [moduleOrdinal] := map_append
    change (store.events ++ [_])[i]? = some row at hrow
    rw [hmodules]
    rcases lt_or_ge i store.events.length with hlt | hge
    · rw [getElem?_append_left hlt] at hrow
      rw [take_append_of_le_length (by simpa [EventStore.modules] using hlt.le)]
      exact h.ordinal i row hrow
    · rw [getElem?_append_right hge, getElem?_singleton] at hrow
      split at hrow
      · rename_i hi
        cases hrow
        have hlen : i = store.modules.length := by
          rw [EventStore.modules, length_map]
          omega
        rw [hlen, take_left]
        exact h.next moduleOrdinal
      · cases hrow
  next := by
    intro other
    have hmodules : (store.reserveEvent moduleOrdinal sourceStart).2.modules
        = store.modules ++ [moduleOrdinal] := map_append
    show ((store.nextEventOrdinal.insert moduleOrdinal
      ((store.nextEventOrdinal.lookup moduleOrdinal).getD 0 + 1)).lookup other).getD 0 = _
    rw [hmodules, count_append]
    by_cases hother : other = moduleOrdinal
    · rw [hother, Finmap.lookup_insert, count_singleton_self, ← h.next]
      rfl
    · rw [Finmap.lookup_insert_of_ne _ hother, h.next, count_singleton,
        if_neg (by simpa using Ne.symm hother), Nat.add_zero]
  capacity := by
    intro i row hrow
    rcases mem_append.mp (mem_of_getElem? hrow) with hmem | hmem
    · obtain ⟨j, hj⟩ := mem_iff_getElem?.mp hmem
      exact h.capacity j row hj
    · rw [mem_singleton] at hmem
      rw [hmem]
      exact Nat.succ_le_succ (Nat.zero_le 31)
  issued := by
    intro ticket
    rw [mem_append, mem_singleton, h.issued]
    show _ ↔ ∃ row, (store.events ++ [_])[ticket.event]? = some row ∧ _
    rcases lt_or_ge ticket.event store.events.length with hlt | hge
    · rw [getElem?_append_left hlt]
      refine or_iff_left (fun heq => ?_)
      rw [heq] at hlt
      exact lt_irrefl _ hlt
    · rw [getElem?_eq_none_iff.mpr hge, getElem?_append_right hge, getElem?_singleton]
      obtain ⟨event, recordOrdinal⟩ := ticket
      constructor
      · rintro (⟨row, hrow, _⟩ | heq)
        · cases hrow
        · cases heq
          exact ⟨_, if_pos (Nat.sub_self _), Nat.zero_lt_one⟩
      · rintro ⟨row, hrow, hlt⟩
        split at hrow
        · rename_i hevent
          cases hrow
          obtain rfl : event = store.events.length :=
            le_antisymm (Nat.le_of_sub_eq_zero hevent) hge
          obtain rfl : recordOrdinal = 0 := Nat.lt_one_iff.mp hlt
          exact .inr rfl
        · cases hrow
  filed := by
    intro ticket row hrow
    change (store.events ++ [_])[ticket.event]? = some row at hrow
    rcases lt_or_ge ticket.event store.events.length with hlt | hge
    · rw [getElem?_append_left hlt] at hrow
      exact h.filed ticket row hrow
    · rw [getElem?_append_right hge, getElem?_singleton] at hrow
      split at hrow
      · cases hrow
        -- no ticket of the new event was filed yet
        refine iff_of_false (by simp) (fun hfiled => ?_)
        obtain ⟨row, hrow⟩ := h.row_of_filed hfiled
        exact absurd (List.getElem?_eq_some_iff.mp hrow).1 (not_lt.mpr hge)
      · cases hrow
  filed_issued := fun ticket hfiled => mem_append_left _ (h.filed_issued ticket hfiled)
  filed_nodup := h.filed_nodup
  records := by
    refine h.records.trans (congrArg ungroup (map_congr_left (fun call hcall => ?_)))
    obtain ⟨row, hrow⟩ := h.row_of_filed (mem_map_of_mem hcall)
    exact Prod.ext (EventStore.keyOf_append hrow).symm rfl

theorem getElem?_set_of_some {rows : List EventMeta} {event : EventId} {row row' : EventMeta}
    (hrow : rows[event]? = some row) (i : Nat) :
    (rows.set event row')[i]? = if i = event then some row' else rows[i]? := by
  have hlt : event < rows.length := (List.getElem?_eq_some_iff.mp hrow).1
  rw [List.getElem?_set]
  split
  · rename_i hi
    rw [if_pos hi.symm]
  · rename_i hi
    rw [if_neg (Ne.symm hi)]

/-- What a replacement that keeps the key of the event leaves unchanged. -/
theorem Accounted.replaced (h : Accounted ledger store) {event : EventId} {row row' : EventMeta}
    (hrow : store.events[event]? = some row) (hmodule : row'.moduleOrdinal = row.moduleOrdinal)
    (hordinal : row'.eventOrdinal = row.eventOrdinal) (i : Nat) (other : EventMeta)
    (hother : (store.events.set event row')[i]? = some other) :
    other.eventOrdinal =
      (((store.events.set event row').map EventMeta.moduleOrdinal).take i).count
        other.moduleOrdinal := by
  rw [show (store.events.set event row').map EventMeta.moduleOrdinal = store.modules from
    map_set_of_eq hrow hmodule]
  rw [getElem?_set_of_some hrow] at hother
  split at hother
  · rename_i hi
    cases hother
    rw [hordinal, hmodule, hi]
    exact h.ordinal event row hrow
  · exact h.ordinal i other hother

theorem Accounted.reserveRecord (h : Accounted ledger store) {event : EventId} {row : EventMeta}
    (hrow : store.events[event]? = some row)
    (hnext : row.nextRecordOrdinal < eventRecordCapacity) :
    Accounted { ledger with issued := ledger.issued ++ [⟨event, row.nextRecordOrdinal⟩] }
      { store with
        events := store.events.set event
          { row with nextRecordOrdinal := row.nextRecordOrdinal + 1 } } where
  ordinal := h.replaced hrow rfl rfl
  next := fun moduleOrdinal => (h.next moduleOrdinal).trans
    (congrArg (count moduleOrdinal) (EventStore.modules_set hrow (by rfl)).symm)
  capacity := by
    intro i other hother
    change (store.events.set event _)[i]? = some other at hother
    rw [getElem?_set_of_some hrow] at hother
    split at hother
    · cases hother
      exact hnext
    · exact h.capacity i other hother
  issued := by
    intro ticket
    rw [mem_append, mem_singleton, h.issued]
    show _ ↔ ∃ other, (store.events.set event _)[ticket.event]? = some other ∧ _
    rw [getElem?_set_of_some hrow]
    obtain ⟨id, recordOrdinal⟩ := ticket
    split
    · rename_i hid
      subst hid
      simp only [hrow, some.injEq, exists_eq_left', UserRecordTicket.mk.injEq, true_and]
      omega
    · rename_i hid
      refine or_iff_left (fun heq => hid ?_)
      exact congrArg UserRecordTicket.event heq
  filed := by
    intro ticket other hother
    change (store.events.set event _)[ticket.event]? = some other at hother
    rw [getElem?_set_of_some hrow] at hother
    split at hother
    · rename_i hid
      cases hother
      exact h.filed ticket row (hid ▸ hrow)
    · exact h.filed ticket other hother
  filed_issued := fun ticket hfiled => mem_append_left _ (h.filed_issued ticket hfiled)
  filed_nodup := h.filed_nodup
  records := by
    refine h.records.trans (congrArg ungroup (map_congr_left (fun call _ => ?_)))
    refine Prod.ext (EventStore.keyOf_set hrow ?_ call.1).symm rfl
    rfl

theorem Accounted.complete (h : Accounted ledger store) {ticket : UserRecordTicket}
    {records : List R} {row : EventMeta} (hrow : store.events[ticket.event]? = some row)
    (hlt : ticket.recordOrdinal < row.nextRecordOrdinal)
    (hfresh : row.completed.getLsbD ticket.recordOrdinal = false) :
    Accounted { ledger with filed := ledger.filed ++ [(ticket, records)] }
      { store with
        events := store.events.set ticket.event
          { row with completed := row.completed ||| (1#32 <<< ticket.recordOrdinal) }
        records := store.records
          ++ records.map (fun record => (row.key ticket.recordOrdinal, record)) } where
  ordinal := h.replaced hrow rfl rfl
  next := fun moduleOrdinal => (h.next moduleOrdinal).trans
    (congrArg (count moduleOrdinal) (EventStore.modules_set hrow (by rfl)).symm)
  capacity := by
    intro i other hother
    change (store.events.set ticket.event _)[i]? = some other at hother
    rw [getElem?_set_of_some hrow] at hother
    split at hother
    · cases hother
      exact h.capacity _ row hrow
    · exact h.capacity i other hother
  issued := by
    intro other
    rw [h.issued]
    show _ ↔ ∃ found, (store.events.set ticket.event _)[other.event]? = some found ∧ _
    rw [getElem?_set_of_some hrow]
    split
    · rename_i hid
      simp only [hid, hrow, some.injEq, exists_eq_left']
    · rfl
  filed := by
    intro other found hfound
    -- one bit is set, and it is this ticket's
    have hbit : ticket.recordOrdinal < 32 := hlt.trans_le (h.capacity _ row hrow)
    change (store.events.set ticket.event _)[other.event]? = some found at hfound
    rw [getElem?_set_of_some hrow] at hfound
    rw [map_append, mem_append, map_singleton, mem_singleton]
    split at hfound
    · rename_i hid
      cases hfound
      rw [getLsbD_or_bit _ hbit, Bool.or_eq_true, h.filed other row (hid ▸ hrow), decide_eq_true_eq]
      obtain ⟨event, recordOrdinal⟩ := other
      obtain ⟨event', recordOrdinal'⟩ := ticket
      dsimp only at hid
      simp only [hid, UserRecordTicket.mk.injEq, true_and]
    · rename_i hid
      rw [h.filed other found hfound]
      exact (or_iff_left (fun heq => hid (congrArg UserRecordTicket.event heq))).symm
  filed_issued := by
    intro other hother
    rw [map_append, mem_append, map_singleton, mem_singleton] at hother
    rcases hother with hother | rfl
    · exact h.filed_issued other hother
    · exact (h.issued _).mpr ⟨row, hrow, hlt⟩
  filed_nodup := by
    rw [map_append]
    refine h.filed_nodup.append (nodup_singleton _) (fun other hother hmem => ?_)
    obtain rfl : other = ticket := mem_singleton.mp hmem
    rw [← h.filed other row hrow, hfresh] at hother
    cases hother
  records := by
    have hkeys : ∀ other, EventStore.keyOf { store with
        events := store.events.set ticket.event
          { row with completed := row.completed ||| (1#32 <<< ticket.recordOrdinal) }
        records := store.records
          ++ records.map (fun record => (row.key ticket.recordOrdinal, record)) } other
        = store.keyOf other := fun other => EventStore.keyOf_set hrow (by rfl) other
    have hkey : store.keyOf ticket = row.key ticket.recordOrdinal := by
      rw [EventStore.keyOf, hrow]
      rfl
    simp only [hkeys, map_append, map_cons, map_nil, hkey]
    rw [h.records]
    simp only [ungroup, flatMap_append, flatMap_singleton]

/-- **An operation that fails changes nothing.** -/
theorem EventStore.step_error (store : EventStore R) (op : EventOp R)
    (hfailed : (op.step store).1.failed = true) : (op.step store).2 = store := by
  cases op with
  | reserveEvent moduleOrdinal sourceStart => cases hfailed
  | reserveRecord event =>
    simp only [EventOp.step, EventStore.reserveRecord] at hfailed ⊢
    split
    · rfl
    · rename_i row hrow
      rw [hrow] at hfailed
      dsimp only at hfailed ⊢
      split at hfailed
      · rename_i hcapacity
        rw [if_pos hcapacity]
      · cases hfailed
  | complete ticket records =>
    simp only [EventOp.step, EventStore.complete] at hfailed ⊢
    split
    · rfl
    · rename_i row hrow
      rw [hrow] at hfailed
      dsimp only at hfailed ⊢
      split at hfailed
      · rename_i hordinal
        rw [if_pos hordinal]
      · rename_i hordinal
        split at hfailed
        · rename_i hbit
          rw [if_neg hordinal, if_pos hbit]
        · cases hfailed

theorem accounted_step (h : Accounted ledger store) (op : EventOp R) :
    Accounted (stepLedger (ledger, store) op).1 (stepLedger (ledger, store) op).2 := by
  cases op with
  | reserveEvent moduleOrdinal sourceStart => exact h.reserveEvent moduleOrdinal sourceStart
  | reserveRecord event =>
    simp only [stepLedger, EventOp.step, EventStore.reserveRecord]
    cases hrow : store.events[event]? with
    | none => exact h
    | some row =>
      dsimp only
      split
      · exact h
      · rename_i hcapacity
        exact h.reserveRecord hrow (not_le.mp hcapacity)
  | complete ticket records =>
    simp only [stepLedger, EventOp.step, EventStore.complete]
    cases hrow : store.events[ticket.event]? with
    | none => exact h
    | some row =>
      dsimp only
      split
      · exact h
      · rename_i hordinal
        split
        · exact h
        · rename_i hbit
          have hlt := not_le.mp hordinal
          rw [not_ne_iff, and_bit_eq_zero_iff _ (hlt.trans_le (h.capacity _ row hrow))] at hbit
          exact h.complete hrow hlt hbit

/-- **Every run keeps its accounts.** -/
theorem accounted_runEvents (ops : List (EventOp R)) :
    Accounted (runEvents ops).1 (runEvents ops).2 := by
  induction ops using reverseRecOn with
  | nil => exact accounted_empty
  | append_singleton ops op ih =>
    rw [runEvents, foldl_append]
    exact accounted_step ih op

end Steps

/-! ## §5 Replay -/

section Replay

variable {store : EventStore R} {ledger : Ledger R}

/-- Different positions have different keys. -/
theorem Accounted.key_injective (h : Accounted ledger store) {i j : Nat} {row row' : EventMeta}
    {a b : Nat} (hrow : store.events[i]? = some row) (hrow' : store.events[j]? = some row')
    (hkey : row.key a = row'.key b) : i = j ∧ a = b := by
  obtain ⟨hmodule, -, hordinal, hrecord⟩ := EventKey.mk.inj hkey
  refine ⟨?_, hrecord⟩
  -- a later event of the same module has a larger ordinal
  have hless : ∀ {i j : Nat} {row row' : EventMeta}, store.events[i]? = some row →
      store.events[j]? = some row' → row.moduleOrdinal = row'.moduleOrdinal → i < j →
      row.eventOrdinal < row'.eventOrdinal := by
    intro i j row row' hrow hrow' hmodule hij
    have hat : store.modules[i]? = some row.moduleOrdinal := by
      rw [EventStore.modules, getElem?_map, hrow, map_some]
    rw [h.ordinal i row hrow, h.ordinal j row' hrow', ← hmodule]
    calc (store.modules.take i).count row.moduleOrdinal
        < (store.modules.take (i + 1)).count row.moduleOrdinal := by
          rw [take_add_one, hat, count_append]
          simp
      _ ≤ (store.modules.take j).count row.moduleOrdinal :=
          ((take_sublist_take_left hij).count_le _)
  rcases lt_trichotomy i j with hij | hij | hij
  · exact absurd hordinal (hless hrow hrow' hmodule hij).ne
  · exact hij
  · exact absurd hordinal (hless hrow' hrow hmodule.symm hij).ne'

theorem EventStore.keyOf_of_row {ticket : UserRecordTicket} {row : EventMeta}
    (hrow : store.events[ticket.event]? = some row) :
    store.keyOf ticket = row.key ticket.recordOrdinal := by
  rw [EventStore.keyOf, hrow]
  rfl

theorem Accounted.keyOf_injective (h : Accounted ledger store) {ticket ticket' : UserRecordTicket}
    (hticket : ticket ∈ ledger.issued) (hticket' : ticket' ∈ ledger.issued)
    (hkey : store.keyOf ticket = store.keyOf ticket') : ticket = ticket' := by
  obtain ⟨row, hrow, _⟩ := (h.issued ticket).mp hticket
  obtain ⟨row', hrow', _⟩ := (h.issued ticket').mp hticket'
  rw [EventStore.keyOf_of_row hrow, EventStore.keyOf_of_row hrow'] at hkey
  obtain ⟨hevent, hordinal⟩ := h.key_injective hrow hrow' hkey
  cases ticket
  cases ticket'
  exact congr (congrArg UserRecordTicket.mk hevent) hordinal

/-- The mask names exactly the positions that were never filled. -/
theorem mem_unfinishedOf {row : EventMeta} (hcapacity : row.nextRecordOrdinal ≤ eventRecordCapacity)
    {key : EventKey} : key ∈ EventStore.unfinishedOf row ↔
      ∃ recordOrdinal < row.nextRecordOrdinal, row.completed.getLsbD recordOrdinal = false ∧
        row.key recordOrdinal = key := by
  unfold EventStore.unfinishedOf
  split
  · rename_i hmask
    refine iff_of_false not_mem_nil ?_
    rintro ⟨recordOrdinal, hlt, hbit, _⟩
    rw [hmask, getLsbD_reservedMask hcapacity (hlt.trans_le hcapacity)] at hbit
    exact absurd hlt (of_decide_eq_false hbit)
  · rw [List.mem_map]
    refine exists_congr (fun recordOrdinal => ?_)
    rw [mem_filter, mem_range, decide_eq_true_eq, and_assoc]
    refine and_congr_right (fun hlt => ?_)
    rw [and_bit_eq_zero_iff _ (hlt.trans_le hcapacity)]

section Ledger

variable (h : Accounted ledger store)
include h

theorem Accounted.mem_unfinishedPositions {key : EventKey} :
    key ∈ store.unfinishedPositions ↔ ∃ ticket ∈ ledger.issued,
      ticket ∉ ledger.filed.map Prod.fst ∧ store.keyOf ticket = key := by
  rw [EventStore.unfinishedPositions, mem_insertionSort, mem_flatMap]
  constructor
  · rintro ⟨row, hmem, hkey⟩
    obtain ⟨i, hrow⟩ := mem_iff_getElem?.mp hmem
    obtain ⟨recordOrdinal, hlt, hbit, rfl⟩ := (mem_unfinishedOf (h.capacity i row hrow)).mp hkey
    refine ⟨⟨i, recordOrdinal⟩, (h.issued _).mpr ⟨row, hrow, hlt⟩, ?_,
      EventStore.keyOf_of_row hrow⟩
    rw [← h.filed ⟨i, recordOrdinal⟩ row hrow, hbit]
    exact Bool.false_ne_true
  · rintro ⟨ticket, hissued, hfiled, rfl⟩
    obtain ⟨row, hrow, hlt⟩ := (h.issued ticket).mp hissued
    refine ⟨row, mem_of_getElem? hrow, (mem_unfinishedOf (h.capacity _ row hrow)).mpr
      ⟨ticket.recordOrdinal, hlt, ?_, (EventStore.keyOf_of_row hrow).symm⟩⟩
    rw [← h.filed ticket row hrow] at hfiled
    exact Bool.eq_false_iff.mpr hfiled

/-- Unfinished positions are listed once, in key order. -/
theorem Accounted.strict_unfinishedPositions :
    store.unfinishedPositions.Pairwise (· < ·) := by
  have hsorted : store.unfinishedPositions.Pairwise (· ≤ ·) := pairwise_insertionSort _ _
  have hnodup : store.unfinishedPositions.Nodup := by
    rw [EventStore.unfinishedPositions, (perm_insertionSort _ _).nodup_iff, nodup_flatMap]
    constructor
    · intro row hmem
      unfold EventStore.unfinishedOf
      split
      · exact nodup_nil
      · refine (nodup_range.filter _).map (fun a b hkey => ?_)
        exact (EventKey.mk.inj hkey).2.2.2
    · rw [pairwise_iff_getElem]
      intro i j hi hj hij key hkey hkey'
      have hrow := getElem?_eq_getElem hi
      have hrow' := getElem?_eq_getElem hj
      obtain ⟨a, _, _, rfl⟩ := (mem_unfinishedOf (h.capacity i _ hrow)).mp hkey
      obtain ⟨b, _, _, hb⟩ := (mem_unfinishedOf (h.capacity j _ hrow')).mp hkey'
      exact hij.ne (h.key_injective hrow hrow' hb.symm).1
  exact hsorted.imp₂ (fun _ _ hle hne => lt_of_le_of_ne hle hne) hnodup

/-- The groups that were filed have different keys. -/
theorem Accounted.nodup_groups :
    ((ledger.filed.map (fun call => (store.keyOf call.1, call.2))).map Prod.fst).Nodup := by
  rw [List.map_map]
  show (ledger.filed.map (fun call => store.keyOf call.1)).Nodup
  rw [← Function.comp_def, ← List.map_map]
  refine (h.filed_nodup.map_on (fun ticket hticket ticket' hticket' hkey => ?_))
  exact h.keyOf_injective (h.filed_issued ticket hticket) (h.filed_issued ticket' hticket') hkey

/-- **What `finish` returns.** -/
theorem Accounted.finish_cases :
    (store.finish = .ok (sortByKey store.records) ∧
      ∀ ticket ∈ ledger.issued, ticket ∈ ledger.filed.map Prod.fst) ∨
    (store.finish = .error (.unfinished store.unfinishedPositions) ∧
      ¬∀ ticket ∈ ledger.issued, ticket ∈ ledger.filed.map Prod.fst) := by
  unfold EventStore.finish
  cases hpositions : store.unfinishedPositions with
  | nil =>
    refine .inl ⟨rfl, fun ticket hissued => by_contra (fun hfiled => ?_)⟩
    have hmem := h.mem_unfinishedPositions.mpr ⟨ticket, hissued, hfiled, rfl⟩
    rw [hpositions] at hmem
    cases hmem
  | cons key keys =>
    refine .inr ⟨rfl, fun hall => ?_⟩
    obtain ⟨ticket, hissued, hfiled, _⟩ :=
      h.mem_unfinishedPositions.mp (hpositions ▸ mem_cons_self)
    exact hfiled (hall ticket hissued)

/-- The replayed records are the filed groups in key order. -/
theorem Accounted.replayed :
    ∃ calls : List (UserRecordTicket × List R), calls.Perm ledger.filed ∧
      calls.Pairwise (fun a b => store.keyOf a.1 < store.keyOf b.1) ∧
      sortByKey store.records
        = calls.flatMap (fun call => call.2.map (fun record => (store.keyOf call.1, record))) := by
  -- sort the calls themselves by the key of their ticket
  let calls := ledger.filed.insertionSort (fun a b => store.keyOf a.1 ≤ store.keyOf b.1)
  have hperm : calls.Perm ledger.filed := perm_insertionSort _ _
  have hgroups : (calls.map (fun call => (store.keyOf call.1, call.2))).Perm
      (ledger.filed.map (fun call => (store.keyOf call.1, call.2))) := hperm.map _
  have hnodup := (hgroups.map Prod.fst).nodup_iff.mpr h.nodup_groups
  have hle : calls.Pairwise (fun a b => store.keyOf a.1 ≤ store.keyOf b.1) := by
    have : Std.Total (fun a b : UserRecordTicket × List R => store.keyOf a.1 ≤ store.keyOf b.1) :=
      ⟨fun a b => le_total _ _⟩
    have : IsTrans (UserRecordTicket × List R)
        (fun a b => store.keyOf a.1 ≤ store.keyOf b.1) := ⟨fun _ _ _ h h' => h.trans h'⟩
    exact pairwise_insertionSort _ _
  have hlt : calls.Pairwise (fun a b => store.keyOf a.1 < store.keyOf b.1) := by
    rw [List.Nodup, pairwise_map, pairwise_map] at hnodup
    exact hle.imp₂ (fun _ _ hle hne => lt_of_le_of_ne hle hne) hnodup
  refine ⟨calls, hperm, hlt, ?_⟩
  rw [h.records, ← sortByKey_groups_perm h.nodup_groups hgroups, sortByKey_groups hnodup]
  -- the groups are already in order
  have hsorted : sortByKey (calls.map (fun call => (store.keyOf call.1, call.2)))
      = calls.map (fun call => (store.keyOf call.1, call.2)) := by
    refine List.Pairwise.insertionSort_eq ?_
    rw [pairwise_map]
    exact hle
  rw [hsorted, ungroup, flatMap_map]

end Ledger

end Replay

/-! ## §6 Two runs -/

section TwoRuns

/-- An event without its completions. -/
def EventMeta.blank (row : EventMeta) : EventMeta := { row with completed := 0#32 }

/-- Two states with the same reservations. -/
structure SameReservations (state state' : Ledger R × EventStore R) : Prop where
  issued : state'.1.issued = state.1.issued
  events : state'.2.events.map EventMeta.blank = state.2.events.map EventMeta.blank
  next : state'.2.nextEventOrdinal = state.2.nextEventOrdinal

variable {state state' : Ledger R × EventStore R}

section Reserving

variable (h : SameReservations state state')
include h

theorem SameReservations.row (i : Nat) :
    (state'.2.events[i]?).map EventMeta.blank = (state.2.events[i]?).map EventMeta.blank := by
  have hat := congrArg (fun rows : List EventMeta => rows[i]?) h.events
  rwa [getElem?_map, getElem?_map] at hat

theorem SameReservations.keyOf (ticket : UserRecordTicket) :
    state'.2.keyOf ticket = state.2.keyOf ticket := by
  have hmap : ∀ row? : Option EventMeta,
      row?.map (fun row => row.key ticket.recordOrdinal)
        = (row?.map EventMeta.blank).map (fun row => row.key ticket.recordOrdinal) := by
    intro row?
    cases row? <;> rfl
  rw [EventStore.keyOf, EventStore.keyOf, hmap, hmap state.2.events[ticket.event]?, h.row]

/-- A completion leaves the reservations as they are. -/
theorem SameReservations.complete (ticket : UserRecordTicket) (records : List R) :
    SameReservations state (stepLedger state' (.complete ticket records)) := by
  simp only [stepLedger, EventOp.step, EventStore.complete]
  cases hrow : state'.2.events[ticket.event]? with
  | none => exact h
  | some row =>
    dsimp only
    split
    · exact h
    · split
      · exact h
      · exact ⟨h.issued, (map_set_of_eq hrow (by rfl)).trans h.events, h.next⟩

/-- A reservation does the same in both. -/
theorem SameReservations.reserve {op : EventOp R} (hop : op.reserves = true) :
    SameReservations (stepLedger state op) (stepLedger state' op) := by
  have hlength : state'.2.events.length = state.2.events.length := by
    simpa using congrArg length h.events
  cases op with
  | reserveEvent moduleOrdinal sourceStart =>
    refine ⟨?_, ?_, ?_⟩
    · show state'.1.issued ++ [⟨state'.2.events.length, 0⟩]
        = state.1.issued ++ [⟨state.2.events.length, 0⟩]
      rw [h.issued, hlength]
    · show (state'.2.events ++ [_]).map EventMeta.blank = (state.2.events ++ [_]).map EventMeta.blank
      rw [map_append, map_append, h.events, h.next]
    · show state'.2.nextEventOrdinal.insert moduleOrdinal _
        = state.2.nextEventOrdinal.insert moduleOrdinal _
      rw [h.next]
  | reserveRecord event =>
    have hat := h.row event
    simp only [stepLedger, EventOp.step, EventStore.reserveRecord]
    cases hrow : state.2.events[event]? with
    | none =>
      rw [hrow, map_none, map_eq_none_iff] at hat
      rw [hat]
      exact h
    | some row =>
      rw [hrow, map_some, map_eq_some_iff] at hat
      obtain ⟨row', hrow', hblank⟩ := hat
      obtain ⟨hmodule, hstart, hordinal, hnext, -⟩ := EventMeta.mk.inj hblank
      rw [hrow']
      dsimp only
      rw [hnext]
      split
      · exact h
      · refine ⟨?_, ?_, h.next⟩
        · show state'.1.issued ++ [_] = state.1.issued ++ [_]
          rw [h.issued]
        · show (state'.2.events.set event _).map EventMeta.blank
            = (state.2.events.set event _).map EventMeta.blank
          rw [map_set, map_set, h.events]
          congr 1
          simp only [EventMeta.blank, hmodule, hstart, hordinal]
  | complete ticket records => cases hop

end Reserving

/-- The completions of a run do not reach its reservations. -/
theorem sameReservations_filter (ops : List (EventOp R)) :
    SameReservations (runEvents (ops.filter EventOp.reserves)) (runEvents ops) := by
  induction ops using reverseRecOn with
  | nil => exact ⟨rfl, rfl, rfl⟩
  | append_singleton ops op ih =>
    have hrun : runEvents (ops ++ [op]) = stepLedger (runEvents ops) op := foldl_append
    rw [hrun, filter_append]
    cases hop : op.reserves with
    | true =>
      have hfiltered : runEvents (ops.filter EventOp.reserves ++ [op])
          = stepLedger (runEvents (ops.filter EventOp.reserves)) op := foldl_append
      rw [filter_singleton, hop, cond_true, hfiltered]
      exact ih.reserve hop
    | false =>
      rw [filter_singleton, hop, cond_false, append_nil]
      cases op with
      | complete ticket records => exact ih.complete ticket records
      | reserveEvent moduleOrdinal sourceStart => cases hop
      | reserveRecord event => cases hop

theorem sameReservations_of_filter_eq {ops ops' : List (EventOp R)}
    (h : ops'.filter EventOp.reserves = ops.filter EventOp.reserves) :
    SameReservations (runEvents ops) (runEvents ops') := by
  have hleft := sameReservations_filter ops
  have hright := sameReservations_filter ops'
  rw [h] at hright
  exact ⟨hright.issued.trans hleft.issued.symm, hright.events.trans hleft.events.symm,
    hright.next.trans hleft.next.symm⟩

/-- **Runs with the same reservations and the same filed groups finish alike.** -/
theorem finish_eq_of_same (h : Accounted state.1 state.2) (h' : Accounted state'.1 state'.2)
    (hsame : SameReservations state state')
    (hfiled : ∀ call, call ∈ state'.1.filed ↔ call ∈ state.1.filed) :
    state'.2.finish = state.2.finish := by
  have hperm : state'.1.filed.Perm state.1.filed := by
    rw [perm_ext_iff_of_nodup (List.Nodup.of_map _ h'.filed_nodup)
      (List.Nodup.of_map _ h.filed_nodup)]
    exact hfiled
  have htickets : ∀ ticket, ticket ∈ state'.1.filed.map Prod.fst ↔
      ticket ∈ state.1.filed.map Prod.fst := fun ticket => (hperm.map Prod.fst).mem_iff
  have hpositions : state'.2.unfinishedPositions = state.2.unfinishedPositions := by
    have hmem : state'.2.unfinishedPositions.Perm state.2.unfinishedPositions := by
      refine (perm_ext_iff_of_nodup ?_ ?_).mpr (fun key => ?_)
      · exact h'.strict_unfinishedPositions.imp ne_of_lt
      · exact h.strict_unfinishedPositions.imp ne_of_lt
      · rw [h'.mem_unfinishedPositions, h.mem_unfinishedPositions, hsame.issued]
        simp only [htickets, hsame.keyOf]
    exact hmem.eq_of_pairwise (fun a b _ _ hab hba => absurd (hab.trans hba) (lt_irrefl a))
      h'.strict_unfinishedPositions h.strict_unfinishedPositions
  have hrecords : sortByKey state'.2.records = sortByKey state.2.records := by
    rw [h'.records, h.records]
    simp only [hsame.keyOf]
    exact sortByKey_groups_perm h.nodup_groups (hperm.map _)
  unfold EventStore.finish
  simp only [hpositions, hrecords]

/-- Every completion is called with a ticket that an earlier reservation returned. -/
def Presented (ops : List (EventOp R)) : Prop :=
  ∀ before ticket records after, ops = before ++ .complete ticket records :: after →
    ticket ∈ (runEvents before).1.issued

theorem Presented.init {ops : List (EventOp R)} {op : EventOp R} (h : Presented (ops ++ [op])) :
    Presented ops := by
  rintro before ticket records after rfl
  exact h before ticket records (after ++ [op]) (by simp)

/-- Only calls of the run are filed. -/
theorem called_of_filed {ops : List (EventOp R)} {call : UserRecordTicket × List R}
    (hcall : call ∈ (runEvents ops).1.filed) : .complete call.1 call.2 ∈ ops := by
  induction ops using reverseRecOn with
  | nil => cases hcall
  | append_singleton ops op ih =>
    rw [runEvents, foldl_append] at hcall
    change call ∈ (stepLedger (runEvents ops) op).1.filed at hcall
    rw [mem_append]
    cases op with
    | reserveEvent moduleOrdinal sourceStart => exact .inl (ih hcall)
    | reserveRecord event =>
      refine .inl (ih ?_)
      simp only [stepLedger, EventOp.step, EventStore.reserveRecord] at hcall
      split at hcall
      · exact hcall
      · split at hcall
        · exact hcall
        · exact hcall
    | complete ticket records =>
      simp only [stepLedger, EventOp.step, EventStore.complete] at hcall
      split at hcall
      · exact .inl (ih hcall)
      · split at hcall
        · exact .inl (ih hcall)
        · split at hcall
          · exact .inl (ih hcall)
          · rcases mem_append.mp hcall with hcall | hcall
            · exact .inl (ih hcall)
            · rw [mem_singleton] at hcall
              rw [hcall]
              exact .inr mem_cons_self

/-- When each ticket has one group of records, every presented call is filed. -/
theorem filed_of_called {ops : List (EventOp R)} (hpresented : Presented ops)
    (hrecords : ∀ ticket records records', EventOp.complete ticket records ∈ ops →
      .complete ticket records' ∈ ops → records = records')
    {ticket : UserRecordTicket} {records : List R} (hcall : .complete ticket records ∈ ops) :
    (ticket, records) ∈ (runEvents ops).1.filed := by
  induction ops using reverseRecOn with
  | nil => cases hcall
  | append_singleton ops op ih =>
    have h := accounted_runEvents ops
    have hrun : runEvents (ops ++ [op]) = stepLedger (runEvents ops) op := foldl_append
    have hold : (ticket, records) ∈ (runEvents ops).1.filed →
        (ticket, records) ∈ (runEvents (ops ++ [op])).1.filed := by
      intro hfiled
      rw [hrun]
      unfold stepLedger Ledger.enter
      split
      · exact hfiled
      · exact hfiled
      · exact mem_append_left _ hfiled
      · exact hfiled
    rcases mem_append.mp hcall with hcall | hcall
    · refine hold (ih hpresented.init (fun ticket records records' hc hc' => ?_) hcall)
      exact hrecords ticket records records' (mem_append_left _ hc)
        (mem_append_left _ hc')
    · obtain rfl := mem_singleton.mp hcall
      have hissued := hpresented ops ticket records [] rfl
      obtain ⟨row, hrow, hlt⟩ := (h.issued ticket).mp hissued
      cases hbit : row.completed.getLsbD ticket.recordOrdinal with
      | true =>
        -- filed before, by a call with the same records
        obtain ⟨call, hfiled, hticket⟩ := mem_map.mp ((h.filed ticket row hrow).mp hbit)
        refine hold ?_
        have hbefore := called_of_filed hfiled
        have heq := hrecords ticket records call.2 (mem_append_right _ hcall)
          (mem_append_left _ (hticket ▸ hbefore))
        rw [heq, ← hticket]
        exact hfiled
      | false =>
        have hzero := (and_bit_eq_zero_iff row.completed
          (hlt.trans_le (h.capacity _ row hrow))).mpr hbit
        rw [hrun]
        simp only [stepLedger, EventOp.step, EventStore.complete, hrow, if_neg (not_le.mpr hlt),
          hzero, ne_eq, not_true_eq_false, if_false]
        exact mem_append_right _ mem_cons_self

/-- **Diagnostic replay is lossless and independent of the order of completions.**  For every
    run: an operation that fails changes nothing; `finish` succeeds exactly when every
    position was completed and otherwise lists the others in key order; the output holds the
    groups of records that were filed, each once and in one piece, in key order; and it only
    depends on the reservations and on which groups were filed, so two runs that present the
    same records for each ticket finish alike. -/
theorem replay_lossless {ops : List (EventOp R)} {ledger : Ledger R} {store : EventStore R}
    (hrun : runEvents ops = (ledger, store)) :
    (∀ op : EventOp R, (op.step store).1.failed = true → (op.step store).2 = store) ∧
    ((∃ out, store.finish = .ok out) ↔
      ∀ ticket ∈ ledger.issued, ticket ∈ ledger.filed.map Prod.fst) ∧
    (∀ error, store.finish = .error error → ∃ keys, error = .unfinished keys ∧
      keys.Pairwise (· < ·) ∧ ∀ key, key ∈ keys ↔ ∃ ticket ∈ ledger.issued,
        ticket ∉ ledger.filed.map Prod.fst ∧ store.keyOf ticket = key) ∧
    (∀ out, store.finish = .ok out → ∃ calls : List (UserRecordTicket × List R),
      calls.Perm ledger.filed ∧
      calls.Pairwise (fun a b => store.keyOf a.1 < store.keyOf b.1) ∧
      out = calls.flatMap (fun call => call.2.map (fun record => (store.keyOf call.1, record)))) ∧
    ∀ ops' : List (EventOp R),
      ops'.filter EventOp.reserves = ops.filter EventOp.reserves →
      ((∀ call, call ∈ (runEvents ops').1.filed ↔ call ∈ ledger.filed) →
        (runEvents ops').2.finish = store.finish) ∧
      (Presented ops → Presented ops' →
        (∀ ticket records, EventOp.complete ticket records ∈ ops' ↔ .complete ticket records ∈ ops) →
        (∀ ticket records records', EventOp.complete ticket records ∈ ops →
          .complete ticket records' ∈ ops → records = records') →
        (runEvents ops').2.finish = store.finish) := by
  have h : Accounted ledger store := by
    have haccounted := accounted_runEvents ops
    rwa [hrun] at haccounted
  refine ⟨fun op hfailed => store.step_error op hfailed, ?_, ?_, ?_, fun ops' hfilter => ?_⟩
  · rcases h.finish_cases with ⟨hok, hall⟩ | ⟨herror, hnot⟩
    · exact iff_of_true ⟨_, hok⟩ hall
    · refine iff_of_false (fun ⟨out, hout⟩ => ?_) hnot
      rw [herror] at hout
      cases hout
  · intro error hfinish
    rcases h.finish_cases with ⟨hok, _⟩ | ⟨herror, _⟩
    · rw [hok] at hfinish
      cases hfinish
    · rw [herror] at hfinish
      cases hfinish
      exact ⟨_, rfl, h.strict_unfinishedPositions, fun key => h.mem_unfinishedPositions⟩
  · intro out hfinish
    rcases h.finish_cases with ⟨hok, _⟩ | ⟨herror, _⟩
    · rw [hok] at hfinish
      cases hfinish
      exact h.replayed
    · rw [herror] at hfinish
      cases hfinish
  · have hsame := sameReservations_of_filter_eq hfilter
    -- equal reservations make equal keys, whatever the order of the calls
    have hgeneral : (∀ call, call ∈ (runEvents ops').1.filed ↔ call ∈ ledger.filed) →
        (runEvents ops').2.finish = store.finish := by
      intro hfiled
      have heq := finish_eq_of_same (accounted_runEvents ops) (accounted_runEvents ops') hsame
        (by rwa [hrun])
      rwa [hrun] at heq
    refine ⟨hgeneral, fun hpresented hpresented' hcalls hrecords => hgeneral (fun call => ?_)⟩
    have hledger : ledger = (runEvents ops).1 := by rw [hrun]
    have hrecords' : ∀ ticket records records', EventOp.complete ticket records ∈ ops' →
        .complete ticket records' ∈ ops' → records = records' := by
      intro ticket records records' hc hc'
      exact hrecords ticket records records' ((hcalls _ _).mp hc) ((hcalls _ _).mp hc')
    rw [hledger]
    constructor
    · exact fun hcall => filed_of_called hpresented hrecords
        ((hcalls _ _).mp (called_of_filed hcall))
    · exact fun hcall => filed_of_called hpresented' hrecords'
        ((hcalls _ _).mpr (called_of_filed hcall))

/-- Two events completed in the opposite order. -/
theorem replay_lossless_interleaved :
    (runEvents [EventOp.reserveEvent 0 4, .reserveEvent 0 2, .complete ⟨1, 0⟩ ["b", "c"],
      .complete ⟨0, 0⟩ ["a"]]).2.finish
    = (runEvents [EventOp.reserveEvent 0 4, .complete ⟨0, 0⟩ ["a"], .reserveEvent 0 2,
      .complete ⟨1, 0⟩ ["b", "c"]]).2.finish := by
  have hruns := (@replay_lossless String [EventOp.reserveEvent 0 4, .complete ⟨0, 0⟩ ["a"],
    .reserveEvent 0 2, .complete ⟨1, 0⟩ ["b", "c"]] _ _ rfl).2.2.2.2
  refine (hruns [EventOp.reserveEvent 0 4, .reserveEvent 0 2, .complete ⟨1, 0⟩ ["b", "c"],
      .complete ⟨0, 0⟩ ["a"]] rfl).1 (fun call => ?_)
  show call ∈ [((⟨1, 0⟩ : UserRecordTicket), ["b", "c"]), (⟨0, 0⟩, ["a"])] ↔
    call ∈ [((⟨0, 0⟩ : UserRecordTicket), ["a"]), (⟨1, 0⟩, ["b", "c"])]
  simp only [mem_cons, not_mem_nil, or_false]
  exact or_comm

end TwoRuns

end Typokat.Check
