import Typokat.Types.Layered

/-!
# Layered Maps Are Maps (`typokat-types/src/types/layered.rs`)

A `LayeredMap` spreads what it shows over four tables: a shared base, the overrides of base
entries, the tombstones of base entries and a private suffix.  Lookup, iteration and length
read the tables independently.  This module keeps one invariant of the tables, under which
the three agree, and replays every history of maps and forks on ordinary finite maps.

## Main Results

- `LayeredMap.Layered` : what the four tables always satisfy
- `LayeredMap.Layered.shows` : every reading operation agrees with one finite map
- `LayeredMap.stepMaps_refines` : one operation on a family of maps
- `LayeredMap.runMaps_replays` : every history of a family of maps and their forks
-/

namespace Typokat.Types

open Finmap Option Finset LayeredMap

variable {K V : Type} [DecidableEq K]

/-! ## §1 Listings -/

/-- The list enumerates what a lookup finds, each key once and in whatever order. -/
structure Lists (entries : List (K × V)) (lookup : K → Option V) : Prop where
  nodup : (entries.map Prod.fst).Nodup
  mem_iff : ∀ key value, (key, value) ∈ entries ↔ lookup key = some value

namespace Lists

variable {entries : List (K × V)} {lookup : K → Option V}

omit [DecidableEq K] in
theorem mem_keys_iff (h : Lists entries lookup) {key : K} :
    key ∈ entries.map Prod.fst ↔ (lookup key).isSome := by
  rw [isSome_iff_exists]
  simp [h.mem_iff]

omit [DecidableEq K] in
/-- Two listings of one lookup are permutations of each other. -/
theorem perm {entries' : List (K × V)} (h : Lists entries lookup) (h' : Lists entries' lookup) :
    entries.Perm entries' := by
  apply (List.perm_ext_iff_of_nodup (.of_map _ h.nodup) (.of_map _ h'.nodup)).mpr
  rintro ⟨key, value⟩
  rw [h.mem_iff, h'.mem_iff]

omit [DecidableEq K] in
/-- Only the kept keys are listed. -/
theorem filter (h : Lists entries lookup) (keep : K → Bool) :
    Lists (entries.filter (fun entry => keep entry.1))
      (fun key => if keep key then lookup key else none) where
  nodup := h.nodup.sublist (List.filter_sublist.map _)
  mem_iff := by
    intro key value
    rw [List.mem_filter, h.mem_iff]
    cases keep key <;> simp

omit [DecidableEq K] in
/-- Two listings without a common key. -/
theorem append {entries' : List (K × V)} {lookup' : K → Option V} (h : Lists entries lookup)
    (h' : Lists entries' lookup') (hdisjoint : ∀ key, lookup key = none ∨ lookup' key = none) :
    Lists (entries ++ entries') (fun key => (lookup key).or (lookup' key)) where
  nodup := by
    rw [List.map_append, List.nodup_append']
    refine ⟨h.nodup, h'.nodup, fun key hmem hmem' => ?_⟩
    rw [h.mem_keys_iff] at hmem
    rw [h'.mem_keys_iff] at hmem'
    rcases hdisjoint key with hnone | hnone
    · simp [hnone] at hmem
    · simp [hnone] at hmem'
  mem_iff := by
    intro key value
    rw [List.mem_append, h.mem_iff, h'.mem_iff]
    rcases hdisjoint key with hnone | hnone
    · simp [hnone]
    · simp [hnone]

end Lists

/-- Every hash map is iterated in some order. -/
theorem exists_lists (map : FxHashMap K V) :
    ∃ entries, Lists entries (fun key => map.lookup key) := by
  induction map using induction_on with
  | H rows =>
    refine ⟨rows.entries.map (fun row => (row.1, row.2)), ?_, fun key value => ?_⟩
    · rw [List.map_map]
      exact rows.nodupKeys
    · show _ ↔ rows.lookup key = some value
      rw [← Option.mem_def, AList.mem_lookup_iff]
      simp only [List.mem_map, Prod.mk.injEq]
      constructor
      · rintro ⟨row, hrow, rfl, rfl⟩
        exact hrow
      · exact fun hrow => ⟨⟨key, value⟩, hrow, rfl, rfl⟩

/-! ## §2 The remaining operations -/

namespace LayeredMap

/-- `len`; both saturating operations are exact here. -/
def len (m : LayeredMap K V) : Nat :=
  (m.base.keys.card - m.removed.card) + m.suffix.keys.card

/-- `enable_prefix_overrides`. -/
def enablePrefixOverrides (m : LayeredMap K V) : LayeredMap K V :=
  { m with prefixOverridesEnabled := true }

/-- `remove_visible`: a tombstone for an entry of the base, a removal anywhere else. -/
def removeVisible (m : LayeredMap K V) (key : K) : Except String (Option V × LayeredMap K V) :=
  if m.prefixOverridesEnabled ∧ key ∈ m.base then
    .ok (m.get key,
      { m with overrides := m.overrides.erase key, removed := insert key m.removed })
  else m.removeLocal key

/-- `get_or_insert_local_with`: the value behind the returned reference, and the map after the
    caller has used the reference to `write` it. -/
def getOrInsertLocalWith (m : LayeredMap K V) (key : K) (default : V) (write : V → V) :
    Except String (V × LayeredMap K V) :=
  if key ∈ m.base then
    if m.prefixOverridesEnabled then
      if key ∈ m.removed then
        -- a removed entry starts again from the default
        let slot := (m.overrides.lookup key).getD default
        .ok (slot,
          { m with
            removed := m.removed.erase key, overrides := m.overrides.insert key (write slot) })
      else
        let inherited := m.base.lookup key
        let slot := (m.overrides.lookup key).getD (inherited.getD default)
        .ok (slot, { m with overrides := m.overrides.insert key (write slot) })
    else .error "layered map cannot replace a sealed entry"
  else
    let slot := (m.suffix.lookup key).getD default
    .ok (slot, { m with suffix := m.suffix.insert key (write slot) })

/-- `clear_local`. -/
def clearLocal (m : LayeredMap K V) : LayeredMap K V :=
  { m with overrides := ∅, removed := ∅, suffix := ∅ }

/-- The order in which the three hash tables happen to be iterated. -/
structure Scan (m : LayeredMap K V) where
  base : List (K × V)
  overrides : List (K × V)
  suffix : List (K × V)
  lists_base : Lists base (fun key => m.base.lookup key)
  lists_overrides : Lists overrides (fun key => m.overrides.lookup key)
  lists_suffix : Lists suffix (fun key => m.suffix.lookup key)

namespace Scan

variable {m : LayeredMap K V}

/-- `iter` -/
def iter (scan : m.Scan) : List (K × V) :=
  scan.base.filter (fun entry => decide (entry.1 ∉ m.overrides ∧ entry.1 ∉ m.removed)) ++
    scan.overrides ++ scan.suffix

/-- `keys` -/
def keys (scan : m.Scan) : List K :=
  (scan.base.map Prod.fst).filter (fun key => decide (key ∉ m.overrides ∧ key ∉ m.removed)) ++
    scan.overrides.map Prod.fst ++ scan.suffix.map Prod.fst

/-- `values` -/
def values (scan : m.Scan) : List V :=
  (scan.base.filter (fun entry =>
      decide (entry.1 ∉ m.overrides ∧ entry.1 ∉ m.removed))).map Prod.snd ++
    scan.overrides.map Prod.snd ++ scan.suffix.map Prod.snd

theorem nonempty (m : LayeredMap K V) : Nonempty m.Scan := by
  obtain ⟨base, hbase⟩ := exists_lists m.base
  obtain ⟨overrides, hoverrides⟩ := exists_lists m.overrides
  obtain ⟨suffix, hsuffix⟩ := exists_lists m.suffix
  exact ⟨base, overrides, suffix, hbase, hoverrides, hsuffix⟩

theorem keys_eq (scan : m.Scan) : scan.keys = scan.iter.map Prod.fst := by
  simp [keys, iter, List.filter_map, Function.comp_def]

theorem values_eq (scan : m.Scan) : scan.values = scan.iter.map Prod.snd := by
  simp [values, iter]

end Scan

/-! ## §3 The invariant of the tables -/

/-- Overrides and tombstones speak of different entries of the base, the suffix has other keys,
    and a map that is not sealed has no base. -/
structure Layered (m : LayeredMap K V) : Prop where
  removed : ∀ key ∈ m.removed, key ∈ m.base
  overrides : ∀ key ∈ m.overrides, key ∈ m.base ∧ key ∉ m.removed
  suffix : ∀ key ∈ m.suffix, key ∉ m.base
  base : m.sealed = false → m.base = ∅

section Layered

variable {m : LayeredMap K V} {key : K}

theorem Layered.get_of_mem (h : m.Layered) (hbase : key ∈ m.base) : m.get key
    = if key ∈ m.removed then none else (m.overrides.lookup key).or (m.base.lookup key) := by
  have hsuffix : m.suffix.lookup key = none :=
    lookup_eq_none.mpr (fun hmem => h.suffix key hmem hbase)
  unfold get
  rw [hsuffix, or_none]
  split
  · rename_i hremoved
    rw [lookup_eq_none.mpr (fun hover => (h.overrides key hover).2 hremoved)]
    rfl
  · rfl

theorem Layered.get_of_notMem (h : m.Layered) (hbase : key ∉ m.base) :
    m.get key = m.suffix.lookup key := by
  have hover : m.overrides.lookup key = none :=
    lookup_eq_none.mpr (fun hmem => hbase (h.overrides key hmem).1)
  simp [get, hover, lookup_eq_none.mpr hbase]

theorem Layered.containsKey_eq (h : m.Layered) (key : K) :
    m.containsKey key = (m.get key).isSome := by
  unfold containsKey
  by_cases hbase : key ∈ m.base
  · have hsuffix : key ∉ m.suffix := fun hmem => h.suffix key hmem hbase
    have hvisible : ((m.overrides.lookup key).or (m.base.lookup key)).isSome = true := by
      rw [isSome_or, lookup_isSome.mpr hbase, Bool.or_true]
    rw [h.get_of_mem hbase]
    by_cases hremoved : key ∈ m.removed
    · simp [hremoved, hsuffix]
    · simp [hremoved, hbase, hvisible]
  · rw [h.get_of_notMem hbase, Bool.eq_iff_iff, lookup_isSome]
    simp [hbase]

/-- The three parts of an iteration list what a lookup finds. -/
theorem Layered.lists_iter (h : m.Layered) (scan : m.Scan) : Lists scan.iter m.get := by
  have hoverride : ∀ key ∈ m.overrides, key ∉ m.suffix := fun key hover hsuffix =>
    h.suffix key hsuffix (h.overrides key hover).1
  have hlists := ((scan.lists_base.filter (fun key =>
    decide (key ∉ m.overrides ∧ key ∉ m.removed))).append scan.lists_overrides ?_).append
      scan.lists_suffix ?_
  · suffices hget : m.get = fun key => ((if decide (key ∉ m.overrides ∧ key ∉ m.removed) then
        m.base.lookup key else none).or (m.overrides.lookup key)).or (m.suffix.lookup key) by
      rw [hget]
      exact hlists
    funext key
    by_cases hbase : key ∈ m.base
    · have hsuffix : m.suffix.lookup key = none :=
        lookup_eq_none.mpr (fun hmem => h.suffix key hmem hbase)
      rw [h.get_of_mem hbase, hsuffix, or_none]
      by_cases hover : key ∈ m.overrides
      · obtain ⟨value, hvalue⟩ := mem_iff.mp hover
        simp [hover, hvalue, (h.overrides key hover).2]
      · by_cases hremoved : key ∈ m.removed <;>
          simp [hover, hremoved, lookup_eq_none.mpr hover]
    · have hover : key ∉ m.overrides := fun hmem => hbase (h.overrides key hmem).1
      rw [h.get_of_notMem hbase]
      simp [lookup_eq_none.mpr hbase, lookup_eq_none.mpr hover]
  · -- an overridden entry of the base is filtered out
    intro key
    by_cases hover : key ∈ m.overrides
    · simp [hover]
    · exact .inr (lookup_eq_none.mpr hover)
  · intro key
    by_cases hsuffix : key ∈ m.suffix
    · left
      have hbase : key ∉ m.base := h.suffix key hsuffix
      have hover : key ∉ m.overrides := fun hmem => hoverride key hmem hsuffix
      simp [lookup_eq_none.mpr hbase, lookup_eq_none.mpr hover]
    · exact .inr (lookup_eq_none.mpr hsuffix)

/-- The visible keys are those of the base without the tombstones, and those of the suffix. -/
theorem Layered.keys_eq (h : m.Layered) {shown : FxHashMap K V}
    (hshown : ∀ key, m.get key = shown.lookup key) :
    shown.keys = (m.base.keys \ m.removed) ∪ m.suffix.keys := by
  ext key
  rw [mem_keys, ← lookup_isSome, ← hshown, ← h.containsKey_eq]
  simp [containsKey, mem_keys, and_comm]

theorem Layered.len_eq (h : m.Layered) {shown : FxHashMap K V}
    (hshown : ∀ key, m.get key = shown.lookup key) : m.len = shown.keys.card := by
  have hremoved : m.removed ⊆ m.base.keys := fun key hmem =>
    mem_keys.mpr (h.removed key hmem)
  have hdisjoint : Disjoint (m.base.keys \ m.removed) m.suffix.keys := by
    rw [disjoint_left]
    intro key hbase hsuffix
    exact h.suffix key (mem_keys.mp hsuffix)
      (mem_keys.mp (mem_sdiff.mp hbase).1)
  rw [h.keys_eq hshown, card_union_of_disjoint hdisjoint, card_sdiff_of_subset hremoved]
  rfl

/-- What a map shows, said by every reading operation. -/
structure Shows (m : LayeredMap K V) (shown : FxHashMap K V) : Prop where
  get : ∀ key, m.get key = shown.lookup key
  containsKey : ∀ key, m.containsKey key = decide (key ∈ shown)
  scan : Nonempty m.Scan
  iter : ∀ scan : m.Scan, Lists scan.iter (fun key => shown.lookup key)
  keys : ∀ scan : m.Scan, scan.keys.Nodup ∧ ∀ key, key ∈ scan.keys ↔ key ∈ shown
  values : ∀ (scan : m.Scan) entries, Lists entries (fun key => shown.lookup key) →
    scan.values.Perm (entries.map Prod.snd)
  len : m.len = shown.keys.card

/-- **Lookup, iteration and length agree** under the invariant. -/
theorem Layered.shows (h : m.Layered) {shown : FxHashMap K V}
    (hshown : ∀ key, m.get key = shown.lookup key) : m.Shows shown where
  get := hshown
  containsKey := by
    intro key
    rw [h.containsKey_eq, hshown, Bool.eq_iff_iff, lookup_isSome]
    simp
  scan := Scan.nonempty m
  iter := by
    intro scan
    rw [← funext hshown]
    exact h.lists_iter scan
  keys := by
    intro scan
    rw [scan.keys_eq]
    refine ⟨(h.lists_iter scan).nodup, fun key => ?_⟩
    rw [(h.lists_iter scan).mem_keys_iff, hshown, lookup_isSome]
  values := by
    intro scan entries hentries
    rw [scan.values_eq]
    rw [← funext hshown] at hentries
    exact ((h.lists_iter scan).perm hentries).map Prod.snd
  len := h.len_eq hshown

end Layered

/-! ## §4 Ordinary maps -/

end LayeredMap

/-- An ordinary map, with the entries it had when it was created: those that clearing it goes
    back to. -/
structure OrdinaryMap (K V : Type) where
  shown : FxHashMap K V
  origin : FxHashMap K V

/-- One operation on a family of maps, which are numbered in the order of their creation. -/
inductive LayeredMapOp (K V : Type)
  | create (entries : FxHashMap K V)
  | insertLocal (map : Nat) (key : K) (value : V)
  | removeVisible (map : Nat) (key : K)
  | getOrInsertLocalWith (map : Nat) (key : K) (default : V) (write : V → V)
  | clearLocal (map : Nat)
  | enablePrefixOverrides (map : Nat)
  | freezeAsBase (map : Nat)
  | forkDelta (map : Nat)
  | forkSparseDelta (map : Nat)

/-- What a successful operation returns. -/
inductive LayeredMapAnswer (V : Type)
  | done
  | previous (value : Option V)
  | slot (value : V)

/-- The one map that an operation may change; creating and forking change none. -/
def LayeredMapOp.changes : LayeredMapOp K V → Option Nat
  | .create _ => none
  | .insertLocal map _ _ => some map
  | .removeVisible map _ => some map
  | .getOrInsertLocalWith map _ _ _ => some map
  | .clearLocal map => some map
  | .enablePrefixOverrides map => some map
  | .freezeAsBase map => some map
  | .forkDelta _ => none
  | .forkSparseDelta _ => none

namespace OrdinaryMap

def insert (m : OrdinaryMap K V) (key : K) (value : V) : OrdinaryMap K V :=
  { m with shown := m.shown.insert key value }

/-- A successful operation on ordinary maps; `none` when there is no such map. -/
def apply (maps : List (OrdinaryMap K V)) :
    LayeredMapOp K V → Option (LayeredMapAnswer V × List (OrdinaryMap K V))
  | .create entries => some (.done, maps ++ [⟨entries, ∅⟩])
  | .insertLocal i key value => do
    let m ← maps[i]?
    some (.previous (m.shown.lookup key), maps.set i (m.insert key value))
  | .removeVisible i key => do
    let m ← maps[i]?
    some (.previous (m.shown.lookup key), maps.set i { m with shown := m.shown.erase key })
  | .getOrInsertLocalWith i key default write => do
    let m ← maps[i]?
    let slot := (m.shown.lookup key).getD default
    some (.slot slot, maps.set i (m.insert key (write slot)))
  | .clearLocal i => do
    let m ← maps[i]?
    some (.done, maps.set i { m with shown := m.origin })
  | .enablePrefixOverrides i => do
    let m ← maps[i]?
    some (.done, maps.set i m)
  | .freezeAsBase i => do
    let m ← maps[i]?
    some (.done, maps.set i { m with origin := m.shown })
  | .forkDelta i => do
    let m ← maps[i]?
    some (.done, maps ++ [⟨m.shown, m.shown⟩])
  | .forkSparseDelta i => do
    let m ← maps[i]?
    some (.done, maps ++ [⟨m.shown, m.shown⟩])

/-- Replay the operations that succeeded; the others do nothing and answer nothing. -/
def replay : List (LayeredMapOp K V × Bool) → List (OrdinaryMap K V) →
    Option (List (Option (LayeredMapAnswer V)) × List (OrdinaryMap K V))
  | [], maps => some ([], maps)
  | (_, false) :: ops, maps => do
    let (answers, maps) ← replay ops maps
    some (none :: answers, maps)
  | (op, true) :: ops, maps => do
    let (answer, maps) ← apply maps op
    let (answers, maps) ← replay ops maps
    some (some answer :: answers, maps)

end OrdinaryMap

namespace LayeredMap

/-! ## §5 Families of layered maps -/

/-- Run a fallible operation on one map; an error leaves the family as it is. -/
def modifyMap (maps : List (LayeredMap K V)) (i : Nat)
    (f : LayeredMap K V → Except String (LayeredMapAnswer V × LayeredMap K V)) :
    Option (Except String (LayeredMapAnswer V) × List (LayeredMap K V)) := do
  let m ← maps[i]?
  match f m with
  | .ok (answer, m') => some (.ok answer, maps.set i m')
  | .error message => some (.error message, maps)

/-- Add the fork that an operation makes of one map. -/
def addFork (maps : List (LayeredMap K V)) (i : Nat)
    (f : LayeredMap K V → Except String (LayeredMap K V)) :
    Option (Except String (LayeredMapAnswer V) × List (LayeredMap K V)) := do
  let m ← maps[i]?
  match f m with
  | .ok fork => some (.ok .done, maps ++ [fork])
  | .error message => some (.error message, maps)

/-- One operation on a family; `none` when there is no such map. -/
def stepMaps (maps : List (LayeredMap K V)) :
    LayeredMapOp K V → Option (Except String (LayeredMapAnswer V) × List (LayeredMap K V))
  | .create entries => some (.ok .done, maps ++ [ofMap entries])
  | .insertLocal i key value =>
    modifyMap maps i (fun m => (m.insertLocal key value).map (Prod.map .previous id))
  | .removeVisible i key =>
    modifyMap maps i (fun m => (m.removeVisible key).map (Prod.map .previous id))
  | .getOrInsertLocalWith i key default write =>
    modifyMap maps i (fun m =>
      (m.getOrInsertLocalWith key default write).map (Prod.map .slot id))
  | .clearLocal i => modifyMap maps i (fun m => .ok (.done, m.clearLocal))
  | .enablePrefixOverrides i => modifyMap maps i (fun m => .ok (.done, m.enablePrefixOverrides))
  | .freezeAsBase i => modifyMap maps i (fun m => m.freezeAsBase.map (fun m => (.done, m)))
  | .forkDelta i => addFork maps i forkDelta
  | .forkSparseDelta i => addFork maps i forkSparseDelta

/-- A history of operations with what they returned. -/
def runMaps : List (LayeredMapOp K V) → List (LayeredMap K V) →
    Option (List (Except String (LayeredMapAnswer V)) × List (LayeredMap K V))
  | [], maps => some ([], maps)
  | op :: ops, maps => do
    let (result, maps) ← stepMaps maps op
    let (results, maps) ← runMaps ops maps
    some (result :: results, maps)

/-! ## §6 One operation -/

/-- The layered map shows the ordinary one, and would show its origin once cleared. -/
structure Refines (m : LayeredMap K V) (o : OrdinaryMap K V) : Prop where
  layered : m.Layered
  get : ∀ key, m.get key = o.shown.lookup key
  base : ∀ key, m.base.lookup key = o.origin.lookup key

section Refines

variable {m m' : LayeredMap K V} {o : OrdinaryMap K V}

/-- The lookup of a map that differs from another at one key. -/
theorem lookup_insert_eq (map : FxHashMap K V) (key other : K) (value : V) :
    (map.insert key value).lookup other = if other = key then some value else map.lookup other := by
  split
  · rename_i heq
    rw [heq, lookup_insert]
  · rename_i hne
    rw [lookup_insert_of_ne _ hne]

theorem lookup_erase_eq (map : FxHashMap K V) (key other : K) :
    (map.erase key).lookup other = if other = key then none else map.lookup other := by
  split
  · rename_i heq
    rw [heq, lookup_erase]
  · rename_i hne
    rw [lookup_erase_ne hne]

theorem Layered.setBase (h : m.Layered) {key : K} (hbase : key ∈ m.base) (value : V) :
    Layered { m with
      removed := m.removed.erase key, overrides := m.overrides.insert key value } ∧
    ∀ other, get { m with
      removed := m.removed.erase key, overrides := m.overrides.insert key value } other
        = if other = key then some value else m.get other := by
  have hlayered : Layered { m with
      removed := m.removed.erase key, overrides := m.overrides.insert key value } := by
    refine ⟨fun other hmem => h.removed other (mem_of_mem_erase hmem), ?_, h.suffix, h.base⟩
    intro other hmem
    rcases mem_insert.mp hmem with rfl | hmem
    · exact ⟨hbase, notMem_erase _ _⟩
    · exact ⟨(h.overrides other hmem).1,
        fun hremoved => (h.overrides other hmem).2 (mem_of_mem_erase hremoved)⟩
  refine ⟨hlayered, fun other => ?_⟩
  by_cases heq : other = key
  · subst heq
    simp [get]
  · simp [get, heq, lookup_insert_of_ne _ heq]

theorem Layered.setSuffix (h : m.Layered) {key : K} (hbase : key ∉ m.base) (value : V) :
    Layered { m with suffix := m.suffix.insert key value } ∧
    ∀ other, get { m with suffix := m.suffix.insert key value } other
        = if other = key then some value else m.get other := by
  have hlayered : Layered { m with suffix := m.suffix.insert key value } := by
    refine ⟨h.removed, h.overrides, fun other hmem => ?_, h.base⟩
    rcases mem_insert.mp hmem with rfl | hmem
    · exact hbase
    · exact h.suffix other hmem
  refine ⟨hlayered, fun other => ?_⟩
  by_cases heq : other = key
  · subst heq
    rw [hlayered.get_of_notMem hbase]
    simp
  · simp [get, heq, lookup_insert_of_ne _ heq]

/-- **`insert_local`** returns what was shown and shows the new value. -/
theorem Refines.insertLocal (h : m.Refines o) {key : K} {value : V} {previous : Option V}
    (hok : m.insertLocal key value = .ok (previous, m')) :
    previous = o.shown.lookup key ∧ m'.Refines (o.insert key value) := by
  unfold LayeredMap.insertLocal at hok
  rw [← h.get]
  split at hok
  · rename_i hbase
    split at hok
    · -- an entry of the base: the override is new or replaced, a tombstone goes
      cases hok
      obtain ⟨hlayered, hget⟩ := h.layered.setBase hbase value
      refine ⟨(h.layered.get_of_mem hbase).symm, hlayered, fun other => ?_, h.base⟩
      rw [hget, h.get]
      exact (lookup_insert_eq _ _ _ _).symm
    · cases hok
  · rename_i hbase
    cases hok
    obtain ⟨hlayered, hget⟩ := h.layered.setSuffix hbase value
    refine ⟨(h.layered.get_of_notMem hbase).symm, hlayered, fun other => ?_, h.base⟩
    rw [hget, h.get]
    exact (lookup_insert_eq _ _ _ _).symm

/-- **`remove_visible`** returns what was shown and shows nothing. -/
theorem Refines.removeVisible (h : m.Refines o) {key : K} {previous : Option V}
    (hok : m.removeVisible key = .ok (previous, m')) :
    previous = o.shown.lookup key ∧ m'.Refines { o with shown := o.shown.erase key } := by
  unfold LayeredMap.removeVisible at hok
  rw [← h.get]
  split at hok
  · rename_i hsparse
    cases hok
    have hlayered : Layered { m with
        overrides := m.overrides.erase key, removed := insert key m.removed } := by
      refine ⟨fun other hmem => ?_, fun other hmem => ?_, h.layered.suffix, h.layered.base⟩
      · rcases mem_insert.mp hmem with rfl | hmem
        · exact hsparse.2
        · exact h.layered.removed other hmem
      · obtain ⟨hne, hmem⟩ := mem_erase.mp hmem
        obtain ⟨hbase, hremoved⟩ := h.layered.overrides other hmem
        exact ⟨hbase, by simp [hne, hremoved]⟩
    refine ⟨rfl, hlayered, fun other => ?_, h.base⟩
    show _ = (o.shown.erase key).lookup other
    rw [lookup_erase_eq, ← h.get]
    by_cases heq : other = key
    · subst heq
      rw [hlayered.get_of_mem hsparse.2]
      simp
    · simp [LayeredMap.get, heq, lookup_erase_ne heq]
  · -- otherwise only the suffix may lose the key
    unfold removeLocal at hok
    split at hok
    · cases hok
    · rename_i hbase
      cases hok
      have hlayered : Layered { m with suffix := m.suffix.erase key } :=
        ⟨h.layered.removed, h.layered.overrides,
          fun other hmem => h.layered.suffix other (mem_erase.mp hmem).2, h.layered.base⟩
      refine ⟨(h.layered.get_of_notMem hbase).symm, hlayered, fun other => ?_, h.base⟩
      show _ = (o.shown.erase key).lookup other
      rw [lookup_erase_eq, ← h.get]
      by_cases heq : other = key
      · subst heq
        rw [hlayered.get_of_notMem hbase]
        simp
      · simp [LayeredMap.get, heq, lookup_erase_ne heq]

/-- **`get_or_insert_local_with`** gives out what was shown, or else the default. -/
theorem Refines.getOrInsertLocalWith (h : m.Refines o) {key : K} {default slot : V} {write : V → V}
    (hok : m.getOrInsertLocalWith key default write = .ok (slot, m')) :
    slot = (o.shown.lookup key).getD default ∧ m'.Refines (o.insert key (write slot)) := by
  unfold LayeredMap.getOrInsertLocalWith at hok
  rw [← h.get]
  split at hok
  · rename_i hbase
    split at hok
    · have hget := h.layered.get_of_mem hbase
      split at hok
      · rename_i hremoved
        cases hok
        have hover : m.overrides.lookup key = none :=
          lookup_eq_none.mpr (fun hmem => (h.layered.overrides key hmem).2 hremoved)
        obtain ⟨hlayered, hset⟩ := h.layered.setBase hbase
          (write ((m.overrides.lookup key).getD default))
        refine ⟨by simp [hget, hremoved, hover], hlayered, fun other => ?_, h.base⟩
        rw [hset, h.get]
        exact (lookup_insert_eq _ _ _ _).symm
      · rename_i hremoved
        cases hok
        obtain ⟨hlayered, hset⟩ := h.layered.setBase hbase
          (write ((m.overrides.lookup key).getD ((m.base.lookup key).getD default)))
        -- erasing a tombstone that is not there does nothing
        rw [erase_eq_of_notMem hremoved] at hlayered hset
        refine ⟨?_, hlayered, fun other => ?_, h.base⟩
        · rw [hget, if_neg hremoved]
          cases m.overrides.lookup key <;> rfl
        · rw [hset, h.get]
          exact (lookup_insert_eq _ _ _ _).symm
    · cases hok
  · rename_i hbase
    cases hok
    obtain ⟨hlayered, hset⟩ := h.layered.setSuffix hbase
      (write ((m.suffix.lookup key).getD default))
    refine ⟨by rw [h.layered.get_of_notMem hbase], hlayered, fun other => ?_, h.base⟩
    rw [hset, h.get]
    exact (lookup_insert_eq _ _ _ _).symm

/-- **`clear_local`** shows what the map showed when it was forked. -/
theorem Refines.clearLocal (h : m.Refines o) :
    m.clearLocal.Refines { o with shown := o.origin } where
  layered := by
    refine ⟨fun key hmem => absurd hmem (notMem_empty key), fun key hmem => ?_,
      fun key hmem => ?_, h.layered.base⟩
    · exact absurd hmem notMem_empty
    · exact absurd hmem notMem_empty
  get := by
    intro key
    rw [← h.base]
    simp [LayeredMap.get, LayeredMap.clearLocal]
  base := h.base

theorem Refines.enablePrefixOverrides (h : m.Refines o) : m.enablePrefixOverrides.Refines o :=
  ⟨⟨h.layered.removed, h.layered.overrides, h.layered.suffix, h.layered.base⟩, h.get, h.base⟩

/-- A map that only has a base shows the base. -/
theorem refines_of_base (hover : m.overrides = ∅) (hremoved : m.removed = ∅)
    (hsuffix : m.suffix = ∅) (hsealed : m.sealed = true) {shown : FxHashMap K V}
    (hshown : ∀ key, m.base.lookup key = shown.lookup key) : m.Refines ⟨shown, shown⟩ where
  layered := by
    refine ⟨fun key hmem => ?_, fun key hmem => ?_, fun key hmem => ?_, fun h => ?_⟩
    · simp [hremoved] at hmem
    · exact absurd hmem (hover ▸ notMem_empty)
    · exact absurd hmem (hsuffix ▸ notMem_empty)
    · rw [hsealed] at h
      cases h
  get := by
    intro key
    rw [← hshown]
    simp [get, hover, hremoved, hsuffix]
  base := hshown

/-- **`freeze_as_base`** shows what was shown, and clearing comes back to it. -/
theorem Refines.freezeAsBase (h : m.Refines o) (hok : m.freezeAsBase = .ok m') :
    m'.Refines { o with origin := o.shown } := by
  obtain ⟨⟨⟨hover, hremoved, -, -⟩, hsealed, hget⟩, hsuffix⟩ := of_freezeAsBase hok
  apply refines_of_base hover hremoved hsuffix hsealed
  intro key
  rw [← h.get, ← hget]
  simp [LayeredMap.get, hover, hremoved, hsuffix]

/-- **`fork_delta`** shows what its parent shows. -/
theorem Refines.forkDelta (h : m.Refines o) (hok : m.forkDelta = .ok m') :
    m'.Refines ⟨o.shown, o.shown⟩ := by
  obtain ⟨rfl, hget⟩ := of_forkDelta_eq hok
  apply refines_of_base rfl rfl rfl rfl
  intro key
  rw [← h.get, hget]

theorem Refines.forkSparseDelta (h : m.Refines o) (hok : m.forkSparseDelta = .ok m') :
    m'.Refines ⟨o.shown, o.shown⟩ := by
  unfold LayeredMap.forkSparseDelta at hok
  cases hfork : m.forkDelta with
  | error message =>
    rw [hfork] at hok
    cases hok
  | ok delta =>
    rw [hfork] at hok
    cases hok
    exact (h.forkDelta hfork).enablePrefixOverrides

theorem refines_ofMap (entries : FxHashMap K V) : (ofMap entries).Refines ⟨entries, ∅⟩ where
  layered := by
    refine ⟨fun key hmem => ?_, fun key hmem => ?_, fun key _ => notMem_empty, fun _ => rfl⟩
    · exact absurd hmem (notMem_empty key)
    · exact absurd hmem notMem_empty
  get := get_ofMap entries
  base := fun _ => rfl

end Refines

/-! ## §7 Families and histories -/

/-- Map by map, the layered family shows the ordinary one. -/
def FamilyRefines (maps : List (LayeredMap K V)) (ordinary : List (OrdinaryMap K V)) : Prop :=
  List.Forall₂ Refines maps ordinary

section Families

variable {maps maps' : List (LayeredMap K V)} {ordinary : List (OrdinaryMap K V)}

section Families

variable (h : FamilyRefines maps ordinary)
include h

theorem FamilyRefines.getElem? {i : Nat} {m : LayeredMap K V} (hm : maps[i]? = some m) :
    ∃ o, ordinary[i]? = some o ∧ m.Refines o := by
  induction h generalizing i with
  | nil => simp at hm
  | cons hhead _ ih =>
    cases i with
    | zero =>
      cases hm
      exact ⟨_, rfl, hhead⟩
    | succ i => exact ih hm

theorem FamilyRefines.set {m : LayeredMap K V} {o : OrdinaryMap K V} (hmo : m.Refines o) (i : Nat) :
    FamilyRefines (maps.set i m) (ordinary.set i o) := by
  induction h generalizing i with
  | nil => exact .nil
  | cons hhead htail ih =>
    cases i with
    | zero => exact .cons hmo htail
    | succ i => exact .cons hhead (ih i)

theorem FamilyRefines.append {m : LayeredMap K V} {o : OrdinaryMap K V} (hmo : m.Refines o) :
    FamilyRefines (maps ++ [m]) (ordinary ++ [o]) :=
  List.rel_append h (.cons hmo .nil)

/-- An operation on one map, when its success refines `g`. -/
theorem modifyMap_refines {i : Nat} {op : LayeredMapOp K V}
    {f : LayeredMap K V → Except String (LayeredMapAnswer V × LayeredMap K V)}
    {g : OrdinaryMap K V → LayeredMapAnswer V × OrdinaryMap K V}
    (hf : ∀ {m o answer m'}, m.Refines o → f m = .ok (answer, m') →
      answer = (g o).1 ∧ m'.Refines (g o).2)
    (happly : ∀ o, ordinary[i]? = some o →
      OrdinaryMap.apply ordinary op = some ((g o).1, ordinary.set i (g o).2))
    {result : Except String (LayeredMapAnswer V)}
    (hstep : modifyMap maps i f = some (result, maps')) :
    (∃ message, result = .error message ∧ maps' = maps) ∨
    ∃ answer ordinary', result = .ok answer ∧
      OrdinaryMap.apply ordinary op = some (answer, ordinary') ∧
      FamilyRefines maps' ordinary' := by
  unfold modifyMap at hstep
  simp only [bind_eq_bind, bind_eq_some_iff] at hstep
  obtain ⟨m, hm, hstep⟩ := hstep
  obtain ⟨o, ho, hmo⟩ := h.getElem? hm
  cases hrun : f m with
  | error message =>
    rw [hrun] at hstep
    cases hstep
    exact .inl ⟨message, rfl, rfl⟩
  | ok changed =>
    rw [hrun] at hstep
    cases hstep
    obtain ⟨hanswer, hrefines⟩ := hf hmo hrun
    exact .inr ⟨_, _, by rw [hanswer], happly o ho, h.set hrefines i⟩

/-- An operation that makes a fork, when its success refines `g`. -/
theorem addFork_refines {i : Nat} {op : LayeredMapOp K V}
    {f : LayeredMap K V → Except String (LayeredMap K V)}
    {g : OrdinaryMap K V → OrdinaryMap K V}
    (hf : ∀ {m o m'}, m.Refines o → f m = .ok m' → m'.Refines (g o))
    (happly : ∀ o, ordinary[i]? = some o →
      OrdinaryMap.apply ordinary op = some (.done, ordinary ++ [g o]))
    {result : Except String (LayeredMapAnswer V)} (hstep : addFork maps i f = some (result, maps')) :
    (∃ message, result = .error message ∧ maps' = maps) ∨
    ∃ answer ordinary', result = .ok answer ∧
      OrdinaryMap.apply ordinary op = some (answer, ordinary') ∧
      FamilyRefines maps' ordinary' := by
  unfold addFork at hstep
  simp only [bind_eq_bind, bind_eq_some_iff] at hstep
  obtain ⟨m, hm, hstep⟩ := hstep
  obtain ⟨o, ho, hmo⟩ := h.getElem? hm
  cases hrun : f m with
  | error message =>
    rw [hrun] at hstep
    cases hstep
    exact .inl ⟨message, rfl, rfl⟩
  | ok fork =>
    rw [hrun] at hstep
    cases hstep
    exact .inr ⟨_, _, rfl, happly o ho, h.append (hf hmo hrun)⟩

end Families

omit [DecidableEq K] in
/-- The value of a fallible operation behind the shape of its answer. -/
theorem of_map_ok {A : Type} {run : Except String (A × LayeredMap K V)}
    {wrap : A → LayeredMapAnswer V} {answer : LayeredMapAnswer V} {m' : LayeredMap K V}
    (h : run.map (Prod.map wrap id) = .ok (answer, m')) :
    ∃ value, run = .ok (value, m') ∧ answer = wrap value := by
  cases run with
  | error message => cases h
  | ok changed =>
    cases h
    exact ⟨changed.1, rfl, rfl⟩

variable {result : Except String (LayeredMapAnswer V)}

/-- **One operation**: an error leaves the family as it is, and a success is the operation on
    the ordinary maps. -/
theorem stepMaps_refines (h : FamilyRefines maps ordinary) {op : LayeredMapOp K V}
    (hstep : stepMaps maps op = some (result, maps')) :
    (∃ message, result = .error message ∧ maps' = maps) ∨
    ∃ answer ordinary', result = .ok answer ∧
      OrdinaryMap.apply ordinary op = some (answer, ordinary') ∧
      FamilyRefines maps' ordinary' := by
  cases op with
  | create entries =>
    cases hstep
    exact .inr ⟨_, _, rfl, rfl, h.append (refines_ofMap entries)⟩
  | insertLocal i key value =>
    refine modifyMap_refines h (g := fun o =>
      (.previous (o.shown.lookup key), o.insert key value)) ?_
      (fun o ho => by simp [OrdinaryMap.apply, ho]) hstep
    intro m o answer m' hmo hok
    obtain ⟨previous, hvalue, rfl⟩ := of_map_ok hok
    exact (hmo.insertLocal hvalue).imp_left (congrArg _)
  | removeVisible i key =>
    refine modifyMap_refines h (g := fun o =>
      (.previous (o.shown.lookup key), { o with shown := o.shown.erase key })) ?_
      (fun o ho => by simp [OrdinaryMap.apply, ho]) hstep
    intro m o answer m' hmo hok
    obtain ⟨previous, hvalue, rfl⟩ := of_map_ok hok
    exact (hmo.removeVisible hvalue).imp_left (congrArg _)
  | getOrInsertLocalWith i key default write =>
    refine modifyMap_refines h (g := fun o => (.slot ((o.shown.lookup key).getD default),
      o.insert key (write ((o.shown.lookup key).getD default)))) ?_
      (fun o ho => by simp [OrdinaryMap.apply, ho]) hstep
    intro m o answer m' hmo hok
    obtain ⟨slot, hvalue, rfl⟩ := of_map_ok hok
    obtain ⟨rfl, hrefines⟩ := hmo.getOrInsertLocalWith hvalue
    exact ⟨rfl, hrefines⟩
  | clearLocal i =>
    unfold stepMaps at hstep
    refine modifyMap_refines h (g := fun o =>
      (.done, { o with shown := o.origin })) ?_
      (fun o ho => by simp [OrdinaryMap.apply, ho]) hstep
    rintro m o answer m' hmo hok
    cases hok
    exact ⟨rfl, hmo.clearLocal⟩
  | enablePrefixOverrides i =>
    unfold stepMaps at hstep
    refine modifyMap_refines h (g := fun o => (.done, o)) ?_
      (fun o ho => by simp [OrdinaryMap.apply, ho]) hstep
    rintro m o answer m' hmo hok
    cases hok
    exact ⟨rfl, hmo.enablePrefixOverrides⟩
  | freezeAsBase i =>
    refine modifyMap_refines h (g := fun o =>
      (.done, { o with origin := o.shown })) ?_
      (fun o ho => by simp [OrdinaryMap.apply, ho]) hstep
    intro m o answer m' hmo hok
    cases hfreeze : m.freezeAsBase with
    | error message =>
      rw [hfreeze] at hok
      cases hok
    | ok frozen =>
      rw [hfreeze] at hok
      cases hok
      exact ⟨rfl, hmo.freezeAsBase hfreeze⟩
  | forkDelta i =>
    exact addFork_refines h (g := fun o => ⟨o.shown, o.shown⟩)
      (fun hmo hok => hmo.forkDelta hok) (fun o ho => by simp [OrdinaryMap.apply, ho]) hstep
  | forkSparseDelta i =>
    exact addFork_refines h (g := fun o => ⟨o.shown, o.shown⟩)
      (fun hmo hok => hmo.forkSparseDelta hok) (fun o ho => by simp [OrdinaryMap.apply, ho]) hstep

/-- The maps of a family that an operation leaves alone. -/
def Untouched (maps maps' : List (LayeredMap K V)) (changed : Option Nat) : Prop :=
  ∀ i m, maps[i]? = some m → changed ≠ some i → maps'[i]? = some m

omit [DecidableEq K] in
theorem untouched_append (maps added : List (LayeredMap K V)) (changed : Option Nat) :
    Untouched maps (maps ++ added) changed := by
  intro i m hm _
  rw [List.getElem?_append_left (List.getElem?_eq_some_iff.mp hm).1]
  exact hm

omit [DecidableEq K] in
theorem untouched_modifyMap {i : Nat}
    {f : LayeredMap K V → Except String (LayeredMapAnswer V × LayeredMap K V)}
    (hstep : modifyMap maps i f = some (result, maps')) :
    Untouched maps maps' (some i) := by
  intro j m hm hne
  unfold modifyMap at hstep
  simp only [bind_eq_bind, bind_eq_some_iff] at hstep
  obtain ⟨changed, -, hstep⟩ := hstep
  split at hstep
  · cases hstep
    rw [List.getElem?_set_ne (fun heq => hne (congrArg some heq))]
    exact hm
  · cases hstep
    exact hm

omit [DecidableEq K] in
theorem untouched_addFork {i : Nat} {f : LayeredMap K V → Except String (LayeredMap K V)}
    (hstep : addFork maps i f = some (result, maps')) :
    Untouched maps maps' none := by
  unfold addFork at hstep
  simp only [bind_eq_bind, bind_eq_some_iff] at hstep
  obtain ⟨parent, -, hstep⟩ := hstep
  split at hstep
  · cases hstep
    exact untouched_append _ _ _
  · cases hstep
    exact fun i m hm _ => hm

/-- **Other maps keep what they show**: the base, and every other fork. -/
theorem untouched_stepMaps {op : LayeredMapOp K V} (hstep : stepMaps maps op = some (result, maps')) :
    Untouched maps maps' op.changes := by
  cases op with
  | create entries =>
    cases hstep
    exact untouched_append _ _ _
  | insertLocal | removeVisible | getOrInsertLocalWith => exact untouched_modifyMap hstep
  | clearLocal =>
    unfold stepMaps at hstep
    exact untouched_modifyMap hstep
  | enablePrefixOverrides =>
    unfold stepMaps at hstep
    exact untouched_modifyMap hstep
  | freezeAsBase => exact untouched_modifyMap hstep
  | forkDelta => exact untouched_addFork hstep
  | forkSparseDelta => exact untouched_addFork hstep

/-- A history from a family that shows ordinary maps is their replay. -/
theorem runMaps_refines {ops : List (LayeredMapOp K V)}
    {results : List (Except String (LayeredMapAnswer V))} (h : FamilyRefines maps ordinary)
    (hrun : runMaps ops maps = some (results, maps')) :
    ∃ ordinary', OrdinaryMap.replay (ops.zip (results.map Except.isOk)) ordinary
        = some (results.map Except.toOption, ordinary') ∧ FamilyRefines maps' ordinary' := by
  induction ops generalizing maps ordinary results with
  | nil =>
    cases hrun
    exact ⟨ordinary, rfl, h⟩
  | cons op ops ih =>
    simp only [runMaps, bind_eq_bind, bind_eq_some_iff, some.injEq, Prod.mk.injEq] at hrun
    obtain ⟨⟨result, maps₁⟩, hstep, ⟨rest, maps₂⟩, hrest, rfl, rfl⟩ := hrun
    rcases stepMaps_refines h hstep with ⟨message, rfl, rfl⟩ | ⟨answer, ordinary₁, rfl, happly, h₁⟩
    · obtain ⟨ordinary', hreplay, h'⟩ := ih h hrest
      refine ⟨ordinary', ?_, h'⟩
      rw [List.map_cons, List.zip_cons_cons]
      show OrdinaryMap.replay ((op, false) :: _) _ = _
      simp only [OrdinaryMap.replay, hreplay, bind_eq_bind, bind_some]
      rfl
    · obtain ⟨ordinary', hreplay, h'⟩ := ih h₁ hrest
      refine ⟨ordinary', ?_, h'⟩
      rw [List.map_cons, List.zip_cons_cons]
      show OrdinaryMap.replay ((op, true) :: _) _ = _
      simp only [OrdinaryMap.replay, happly, hreplay, bind_eq_bind, bind_some]
      rfl

/-- **A layered map is a map.**  After any history of maps and their forks, every map shows, by
    all of its reading operations, one ordinary map: the one that replaying the successful
    operations gives, with the same answers.  An operation that fails changes nothing, and no
    operation changes a map other than the one it is called on. -/
theorem runMaps_replays {ops : List (LayeredMapOp K V)}
    {results : List (Except String (LayeredMapAnswer V))} {maps : List (LayeredMap K V)}
    (hrun : runMaps ops [] = some (results, maps)) :
    (∃ ordinary, OrdinaryMap.replay (ops.zip (results.map Except.isOk)) []
        = some (results.map Except.toOption, ordinary) ∧
      List.Forall₂ (fun m o => m.Shows o.shown) maps ordinary) ∧
    ∀ op result maps', stepMaps maps op = some (result, maps') →
      (∀ message, result = .error message → maps' = maps) ∧ Untouched maps maps' op.changes := by
  obtain ⟨ordinary, hreplay, hfamily⟩ := runMaps_refines (show FamilyRefines [] [] from .nil) hrun
  refine ⟨⟨ordinary, hreplay, ?_⟩, fun op result maps' hstep => ⟨?_, untouched_stepMaps hstep⟩⟩
  · exact hfamily.imp (fun m o hmo => hmo.layered.shows hmo.get)
  · rintro message rfl
    rcases stepMaps_refines hfamily hstep with ⟨-, -, hmaps⟩ | ⟨answer, -, hok, -⟩
    · exact hmaps
    · cases hok

/-- A tombstone, a new entry and a re-inserted one in a sparse fork. -/
theorem runMaps_replays_sparse :
    ∃ results maps, runMaps (K := Nat) (V := Nat) [.create (singleton 1 10),
        .freezeAsBase 0, .forkSparseDelta 0, .insertLocal 0 1 5, .removeVisible 1 1,
        .insertLocal 1 2 20, .insertLocal 1 1 11] [] = some (results, maps) ∧
      ∃ ordinary, OrdinaryMap.replay (K := Nat) (V := Nat) ([.create (singleton 1 10),
          .freezeAsBase 0, .forkSparseDelta 0, .insertLocal 0 1 5, .removeVisible 1 1,
          .insertLocal 1 2 20, .insertLocal 1 1 11].zip (results.map Except.isOk)) []
          = some (results.map Except.toOption, ordinary) ∧
        List.Forall₂ (fun m o => m.Shows o.shown) maps ordinary := by
  refine ⟨_, _, rfl, ?_⟩
  exact (runMaps_replays rfl).1

end Families

end LayeredMap

end Typokat.Types
