import Typokat.Types.Repr

/-!
# Immutable-Prefix Containers (`typokat-types/src/types/layered.rs`)

A layered container is an immutable base shared by its forks plus a private suffix.
A sparse fork may also override entries of the base; the arena never enables that.

A fallible operation returns the container unchanged together with its message, as the
source does through `Result` and `&mut self`.
-/

namespace Typokat.Types

open Finmap List

/-! ## §1 Vectors -/

/-- `LayeredVec`: an immutable prefix, its overrides and a mutable suffix. -/
structure LayeredVec (T : Type) where
  base : List T := []
  overrides : FxHashMap Nat T := ∅
  suffix : List T := []
  sealed : Bool := false
  prefixOverridesEnabled : Bool := false

namespace LayeredVec

variable {T : Type}

def len (v : LayeredVec T) : Nat := v.base.length + v.suffix.length

def baseLen (v : LayeredVec T) : Nat := v.base.length

def isSealed (v : LayeredVec T) : Bool := v.sealed

def get (v : LayeredVec T) (index : Nat) : Option T :=
  if index < v.base.length then (v.overrides.lookup index).or v.base[index]?
  else v.suffix[index - v.base.length]?

/-- Write through `get_mut_local`: `none` when there is no slot that may be written. -/
def setLocal (v : LayeredVec T) (index : Nat) (value : T) : Option (LayeredVec T) :=
  if index < v.base.length then
    if v.prefixOverridesEnabled then
      some { v with overrides := v.overrides.insert index value }
    else none
  else if index - v.base.length < v.suffix.length then
    some { v with suffix := v.suffix.set (index - v.base.length) value }
  else none

/-- Append to the suffix and return the index of the new entry. -/
def pushLocal (v : LayeredVec T) (value : T) : Nat × LayeredVec T :=
  (v.len, { v with suffix := v.suffix ++ [value] })

def freezeAsBase (v : LayeredVec T) : Except String (LayeredVec T) :=
  if v.sealed || !v.base.isEmpty || !FxHashMap.isEmpty v.overrides then
    .error "layered vector is already sealed"
  else
    .ok { base := v.suffix, overrides := ∅, suffix := [], sealed := true,
          prefixOverridesEnabled := false }

def forkDelta (v : LayeredVec T) : Except String (LayeredVec T) :=
  if !v.sealed then .error "layered vector base is not sealed"
  else if !v.suffix.isEmpty || !FxHashMap.isEmpty v.overrides then
    .error "layered vector has an unpublished suffix"
  else
    .ok { base := v.base, overrides := ∅, suffix := [], sealed := true,
          prefixOverridesEnabled := false }

/-! ### Lookups after each operation -/

/-- The state of every vector of the arena: no overrides, and none can be made. -/
def Plain (v : LayeredVec T) : Prop :=
  v.overrides = ∅ ∧ v.prefixOverridesEnabled = false ∧ (v.sealed = false → v.base = [])

theorem plain_default : Plain ({} : LayeredVec T) := ⟨rfl, rfl, fun _ => rfl⟩

section Push

variable (v : LayeredVec T)
include v

variable {index : Nat}

theorem get_of_lt_base (h : index < v.base.length) :
    v.get index = (v.overrides.lookup index).or v.base[index]? := if_pos h

theorem get_of_base_le (h : v.base.length ≤ index) :
    v.get index = v.suffix[index - v.base.length]? := if_neg (by omega)

theorem get_eq_none_of_le (h : v.len ≤ index) :
    v.get index = none := by
  unfold len at h
  rw [v.get_of_base_le (by omega), getElem?_eq_none_iff]
  omega

theorem get_isSome_of_lt (h : index < v.len) :
    (v.get index).isSome = true := by
  unfold len at h
  by_cases hb : index < v.base.length
  · rw [v.get_of_lt_base hb]
    cases v.overrides.lookup index with
    | some x => rfl
    | none => simp [hb]
  · rw [v.get_of_base_le (by omega), getElem?_eq_getElem (by omega)]
    rfl

theorem get_isSome_iff (index : Nat) :
    (v.get index).isSome = true ↔ index < v.len := by
  refine ⟨fun h => ?_, v.get_isSome_of_lt⟩
  by_contra hlt
  rw [v.get_eq_none_of_le (by omega)] at h
  cases h

@[simp] theorem len_pushLocal (value : T) :
    (v.pushLocal value).2.len = v.len + 1 := by
  simp [pushLocal, len]
  omega

@[simp] theorem baseLen_pushLocal (value : T) :
    (v.pushLocal value).2.baseLen = v.baseLen := rfl

@[simp] theorem pushLocal_fst (value : T) :
    (v.pushLocal value).1 = v.len := rfl

theorem get_pushLocal_self (value : T) :
    (v.pushLocal value).2.get v.len = some value := by
  have hidx : v.len - v.base.length = v.suffix.length := by
    unfold len
    omega
  rw [get_of_base_le _ (by simp [pushLocal, len])]
  simp [pushLocal, hidx]

theorem get_pushLocal_of_lt (value : T) (h : index < v.len) :
    (v.pushLocal value).2.get index = v.get index := by
  unfold len at h
  by_cases hb : index < v.base.length
  · rw [v.get_of_lt_base hb, get_of_lt_base (v.pushLocal value).2 hb]
    rfl
  · have hle : v.base.length ≤ index := by omega
    have hlt : index - v.base.length < v.suffix.length := by omega
    rw [v.get_of_base_le hle, get_of_base_le (v.pushLocal value).2 hle]
    exact getElem?_append_left hlt

theorem get_pushLocal_of_ne (value : T) (h : index ≠ v.len) :
    (v.pushLocal value).2.get index = v.get index := by
  rcases Nat.lt_or_gt_of_ne h with hlt | hgt
  · exact v.get_pushLocal_of_lt value hlt
  · rw [v.get_eq_none_of_le hgt.le, get_eq_none_of_le _ (by rw [len_pushLocal]; omega)]

end Push

theorem plain_pushLocal {v : LayeredVec T} (h : v.Plain) (value : T) :
    (v.pushLocal value).2.Plain := h

/-- A write to a suffix slot succeeds and changes that slot only. -/
theorem setLocal_of_baseLen_le (v : LayeredVec T) {index : Nat} (value : T)
    (hbase : v.baseLen ≤ index) (hlt : index < v.len) :
    ∃ w, v.setLocal index value = some w ∧ w.len = v.len ∧ w.baseLen = v.baseLen ∧
      w.get index = some value ∧ (∀ i, i ≠ index → w.get i = v.get i) ∧
      (v.Plain → w.Plain) := by
  have hb : ¬ index < v.base.length := by
    unfold baseLen at hbase
    omega
  have hs : index - v.base.length < v.suffix.length := by
    unfold len at hlt
    unfold baseLen at hbase
    omega
  have hset : v.setLocal index value
      = some { v with suffix := v.suffix.set (index - v.base.length) value } := by
    simp only [setLocal, if_neg hb, if_pos hs]
  generalize hw : ({ v with suffix := v.suffix.set (index - v.base.length) value }
    : LayeredVec T) = w at hset
  have hwb : w.base = v.base := by rw [← hw]
  have hws : w.suffix = v.suffix.set (index - v.base.length) value := by rw [← hw]
  have hwo : w.overrides = v.overrides := by rw [← hw]
  refine ⟨w, hset, ?_, ?_, ?_, ?_, ?_⟩
  · simp [len, hwb, hws]
  · simp [baseLen, hwb]
  · rw [w.get_of_base_le (by rw [hwb]; exact hbase), hwb, hws]
    simp [hs]
  · intro i hi
    by_cases hbi : i < v.base.length
    · rw [v.get_of_lt_base hbi, w.get_of_lt_base (by rwa [hwb]), hwo, hwb]
    · rw [v.get_of_base_le (by omega), w.get_of_base_le (by rw [hwb]; omega), hwb, hws]
      exact getElem?_set_ne (by unfold baseLen at hbase; omega)
  · intro h
    rw [← hw]
    exact h

variable {v w : LayeredVec T}

theorem base_of_setLocal {index : Nat} {value : T} (h : v.setLocal index value = some w) :
    w.base = v.base := by
  unfold setLocal at h
  split at h
  · split at h
    · cases h
      rfl
    · cases h
  · split at h
    · cases h
      rfl
    · cases h

theorem sealed_of_setLocal {index : Nat} {value : T} (h : v.setLocal index value = some w) :
    w.sealed = v.sealed := by
  unfold setLocal at h
  split at h
  · split at h
    · cases h
      rfl
    · cases h
  · split at h
    · cases h
      rfl
    · cases h

/-- `w` shows what `v` shows, all of it in its sealed base. -/
structure Reseals (v w : LayeredVec T) : Prop where
  len_eq : w.len = v.len
  baseLen_eq : w.baseLen = v.len
  get_eq : ∀ i, w.get i = v.get i
  plain : w.Plain
  sealed_eq : w.sealed = true

/-- What sealing does, when it succeeds. -/
theorem of_freezeAsBase (h : v.freezeAsBase = .ok w) : v.Reseals w ∧ w.suffix = [] := by
  unfold freezeAsBase at h
  split at h
  · cases h
  · rename_i hcond
    simp only [Bool.or_eq_true, Bool.not_eq_true', not_or, Bool.not_eq_true,
      Bool.not_eq_false, List.isEmpty_iff, FxHashMap.isEmpty_iff] at hcond
    obtain ⟨⟨_, hb⟩, hover⟩ := hcond
    cases h
    refine ⟨⟨by simp [len, hb], by simp [len, baseLen, hb], fun i => ?_,
      ⟨rfl, rfl, fun h => by cases h⟩, rfl⟩, rfl⟩
    rw [v.get_of_base_le (by simp [hb])]
    by_cases hi : i < v.suffix.length
    · rw [get_of_lt_base _ hi]
      simp [hb]
    · rw [get_of_base_le _ (by simpa using hi), List.getElem?_eq_none_iff.mpr (by simp)]
      simp [hb, List.getElem?_eq_none_iff.mpr (not_lt.mp hi)]

theorem freezeAsBase_ok {v : LayeredVec T} (hplain : v.Plain) (hsealed : v.sealed = false) :
    ∃ w, v.freezeAsBase = .ok w := by
  obtain ⟨hover, _, hbase⟩ := hplain
  exact ⟨_, by simp only [freezeAsBase, hover, hbase hsealed, hsealed,
    FxHashMap.isEmpty_empty]; rfl⟩

/-- What forking does, when it succeeds. -/
theorem of_forkDelta (h : v.forkDelta = .ok w) :
    v.Reseals w ∧ w.base = v.base ∧ v.sealed = true ∧ v.suffix = [] := by
  unfold forkDelta at h
  split at h
  · cases h
  · rename_i hsealed
    split at h
    · cases h
    · rename_i hcond
      simp only [Bool.or_eq_true, Bool.not_eq_true', not_or, Bool.not_eq_false,
        List.isEmpty_iff, FxHashMap.isEmpty_iff] at hcond
      obtain ⟨hsuffix, hover⟩ := hcond
      cases h
      refine ⟨⟨by simp [len, hsuffix], by simp [len, baseLen, hsuffix], fun i => ?_,
        ⟨rfl, rfl, fun h => by cases h⟩, rfl⟩, rfl, by simpa using hsealed, hsuffix⟩
      simp [get, hover, hsuffix]

theorem forkDelta_ok {v : LayeredVec T} (hplain : v.Plain) (hsealed : v.sealed = true)
    (hsuffix : v.suffix = []) : ∃ w, v.forkDelta = .ok w := by
  obtain ⟨hover, _, _⟩ := hplain
  exact ⟨_, by simp only [forkDelta, hover, hsuffix, hsealed, FxHashMap.isEmpty_empty]; rfl⟩

end LayeredVec

/-! ## §2 Maps -/

/-- `LayeredMap`: an immutable base, its overrides and tombstones, and a private suffix. -/
structure LayeredMap (K V : Type) where
  base : FxHashMap K V := ∅
  overrides : FxHashMap K V := ∅
  removed : FxHashSet K := ∅
  suffix : FxHashMap K V := ∅
  sealed : Bool := false
  prefixOverridesEnabled : Bool := false

namespace LayeredMap

variable {K V : Type} [DecidableEq K]

variable (m : LayeredMap K V)

def get (key : K) : Option V :=
  ((m.overrides.lookup key).or
    (if key ∈ m.removed then none else m.base.lookup key)).or (m.suffix.lookup key)

/-- Insert and return the displaced value. -/
def insertLocal (key : K) (value : V) :
    Except String (Option V × LayeredMap K V) :=
  if key ∈ m.base then
    if m.prefixOverridesEnabled then
      .ok (if key ∈ m.removed then none else (m.overrides.lookup key).or (m.base.lookup key),
        { m with removed := m.removed.erase key, overrides := m.overrides.insert key value })
    else .error "layered map cannot replace a sealed entry"
  else .ok (m.suffix.lookup key, { m with suffix := m.suffix.insert key value })

/-- Insert into an append-only index; an existing row of any layer is returned and kept. -/
def insertAppendOnly (key : K) (value : V) :
    Option V × LayeredMap K V :=
  match m.get key with
  | some existing => (some existing, m)
  | none =>
    match m.base.lookup key with
    | some sealedValue => (some sealedValue, m)
    | none => (m.suffix.lookup key, { m with suffix := m.suffix.insert key value })

/-- Remove from the suffix and return the removed value. -/
def removeLocal (key : K) : Except String (Option V × LayeredMap K V) :=
  if key ∈ m.base then .error "layered map cannot remove a sealed entry"
  else .ok (m.suffix.lookup key, { m with suffix := m.suffix.erase key })

def freezeAsBase : Except String (LayeredMap K V) :=
  if m.sealed || !FxHashMap.isEmpty m.base || !FxHashMap.isEmpty m.overrides ||
      decide (m.removed ≠ ∅) then
    .error "layered map is already sealed"
  else .ok { m with base := m.suffix, suffix := ∅, sealed := true, prefixOverridesEnabled := false }

def forkDelta : Except String (LayeredMap K V) :=
  if !m.sealed then .error "layered map base is not sealed"
  else if !FxHashMap.isEmpty m.suffix || !FxHashMap.isEmpty m.overrides ||
      decide (m.removed ≠ ∅) then
    .error "layered map has an unpublished suffix"
  else .ok { base := m.base, sealed := true }

/-- The state of every map of the arena: no overrides, no tombstones, and none can be
    made. -/
def Plain : Prop :=
  m.overrides = ∅ ∧ m.removed = ∅ ∧ m.prefixOverridesEnabled = false ∧
    (m.sealed = false → m.base = ∅)

theorem get_of_plain {m : LayeredMap K V} (h : m.Plain) (key : K) :
    m.get key = (m.base.lookup key).or (m.suffix.lookup key) := by
  obtain ⟨hover, hremoved, _, _⟩ := h
  simp [get, hover, hremoved]

theorem plain_insertLocal {m m' : LayeredMap K V} {key : K} {value : V} {previous : Option V}
    (hm : m.Plain) (h : m.insertLocal key value = .ok (previous, m')) :
    m'.Plain ∧ m'.sealed = m.sealed := by
  obtain ⟨hover, hremoved, hdisabled, hbase⟩ := hm
  unfold insertLocal at h
  split at h
  · simp [hdisabled] at h
  · cases h
    exact ⟨⟨hover, hremoved, hdisabled, hbase⟩, rfl⟩

theorem base_insertAppendOnly (key : K) (value : V) :
    (m.insertAppendOnly key value).2.base = m.base := by
  unfold insertAppendOnly
  split
  · rfl
  · split
    · rfl
    · rfl

theorem base_of_insertLocal {m m' : LayeredMap K V} {key : K} {value : V} {previous : Option V}
    (h : m.insertLocal key value = .ok (previous, m')) : m'.base = m.base := by
  unfold insertLocal at h
  split at h
  · split at h
    · cases h
      rfl
    · cases h
  · cases h
    rfl

theorem base_of_removeLocal {m m' : LayeredMap K V} {key : K} {removed : Option V}
    (h : m.removeLocal key = .ok (removed, m')) : m'.base = m.base := by
  unfold removeLocal at h
  split at h
  · cases h
  · cases h
    rfl

theorem plain_removeLocal {m m' : LayeredMap K V} {key : K} {removed : Option V} (hm : m.Plain)
    (h : m.removeLocal key = .ok (removed, m')) :
    m'.Plain ∧ m'.sealed = m.sealed := by
  unfold removeLocal at h
  split at h
  · cases h
  · cases h
    exact ⟨hm, rfl⟩

theorem plain_insertAppendOnly {m : LayeredMap K V} (hm : m.Plain) (key : K) (value : V) :
    (m.insertAppendOnly key value).2.Plain ∧
      (m.insertAppendOnly key value).2.sealed = m.sealed := by
  unfold insertAppendOnly
  split
  · exact ⟨hm, rfl⟩
  · split
    · exact ⟨hm, rfl⟩
    · exact ⟨hm, rfl⟩

/-- On a plain map an append-only insert returns and keeps what the map shows. -/
theorem insertAppendOnly_of_plain {m : LayeredMap K V} (hm : m.Plain) (key : K) (value : V) :
    (m.insertAppendOnly key value).1 = m.get key ∧
      ∀ other, (m.insertAppendOnly key value).2.get other
        = if other = key then some ((m.get key).getD value) else m.get other := by
  unfold insertAppendOnly
  cases hget : m.get key with
  | some existing =>
    refine ⟨rfl, fun other => ?_⟩
    show m.get other = if other = key then some existing else m.get other
    split
    · rename_i heq
      rw [heq, hget]
    · rfl
  | none =>
    rw [get_of_plain hm, Option.or_eq_none_iff] at hget
    rw [hget.1]
    refine ⟨hget.2, fun other => ?_⟩
    show LayeredMap.get { m with suffix := m.suffix.insert key value } other
      = if other = key then some value else m.get other
    rw [get_of_plain hm, get_of_plain (m := { m with suffix := m.suffix.insert key value }) hm]
    split
    · rename_i heq
      rw [heq, hget.1, lookup_insert]
      rfl
    · rename_i hne
      rw [lookup_insert_of_ne _ hne]

/-- `w` shows what `m` shows, and is sealed. -/
structure Reseals (m w : LayeredMap K V) : Prop where
  plain : w.Plain
  sealed_eq : w.sealed = true
  get_eq : ∀ key, w.get key = m.get key

theorem of_freezeAsBase {m w : LayeredMap K V} (h : m.freezeAsBase = .ok w) :
    m.Reseals w ∧ w.suffix = ∅ := by
  unfold freezeAsBase at h
  split at h
  · cases h
  · rename_i hcond
    simp only [Bool.or_eq_true, Bool.not_eq_true', not_or, Bool.not_eq_false, Bool.not_eq_true,
      FxHashMap.isEmpty_iff, decide_eq_true_eq, not_not] at hcond
    obtain ⟨⟨⟨_, hb⟩, hover⟩, hremoved⟩ := hcond
    cases h
    refine ⟨⟨⟨hover, hremoved, rfl, fun h => by cases h⟩, rfl, fun key => ?_⟩, rfl⟩
    simp [get, hover, hremoved, hb]

theorem freezeAsBase_ok {m : LayeredMap K V} (hplain : m.Plain) (hsealed : m.sealed = false) :
    ∃ w, m.freezeAsBase = .ok w := by
  obtain ⟨hover, hremoved, _, hbase⟩ := hplain
  exact ⟨_, by simp [freezeAsBase, hover, hremoved, hbase hsealed, hsealed]; rfl⟩

/-- What a fork has, whatever it may override. -/
theorem of_forkDelta_eq {m w : LayeredMap K V} (h : m.forkDelta = .ok w) :
    w = { base := m.base, sealed := true } ∧ ∀ key, m.get key = m.base.lookup key := by
  unfold forkDelta at h
  split at h
  · cases h
  · split at h
    · cases h
    · rename_i hcond
      simp only [Bool.or_eq_true, Bool.not_eq_true', not_or, Bool.not_eq_false,
        FxHashMap.isEmpty_iff, decide_eq_true_eq, not_not] at hcond
      obtain ⟨⟨hsuffix, hover⟩, hremoved⟩ := hcond
      cases h
      exact ⟨rfl, fun key => by simp [get, hover, hremoved, hsuffix]⟩

theorem of_forkDelta {m w : LayeredMap K V} (h : m.forkDelta = .ok w) :
    m.Reseals w ∧ w.base = m.base ∧ w.suffix = ∅ := by
  obtain ⟨rfl, hget⟩ := of_forkDelta_eq h
  refine ⟨⟨⟨rfl, rfl, rfl, fun h => by cases h⟩, rfl, fun key => ?_⟩, rfl, rfl⟩
  rw [hget]
  simp [get]

theorem forkDelta_ok {m : LayeredMap K V} (hplain : m.Plain) (hsealed : m.sealed = true)
    (hsuffix : m.suffix = ∅) : ∃ w, m.forkDelta = .ok w := by
  obtain ⟨hover, hremoved, _, _⟩ := hplain
  exact ⟨_, by simp [forkDelta, hover, hremoved, hsuffix, hsealed]; rfl⟩

/-! ### Sparse forks -/

/-- `LayeredMap::from`: a map without a base. -/
def ofMap (entries : FxHashMap K V) : LayeredMap K V := { suffix := entries }

def containsKey (key : K) : Bool :=
  decide (key ∉ m.removed ∧ key ∈ m.base) || decide (key ∈ m.suffix)

/-- `fork_sparse_delta`: a fork that may override entries of its base. -/
def forkSparseDelta : Except String (LayeredMap K V) := do
  let delta ← m.forkDelta
  .ok { delta with prefixOverridesEnabled := true }

/-- `iter`: what is visible of the base, then the overrides, then the suffix. -/
def iter (m : LayeredMap Nat V) : List (Nat × V) :=
  (FxHashMap.sortedEntries m.base).filter (fun entry =>
      entry.1 ∉ m.overrides ∧ entry.1 ∉ m.removed) ++
    FxHashMap.sortedEntries m.overrides ++ FxHashMap.sortedEntries m.suffix

/-- Insert entries one after the other. -/
def insertEntries (entries : List (K × V)) : Option (LayeredMap K V) :=
  entries.foldlM (fun m entry => (m.insertLocal entry.1 entry.2).toOption.map Prod.snd) m

/-- A map that nothing was removed from: overrides hide entries of the base, and the suffix has
    other keys. -/
structure Coherent (m : LayeredMap K V) : Prop where
  removed : m.removed = ∅
  overrides : ∀ key ∈ m.overrides, key ∈ m.base
  suffix : ∀ key ∈ m.suffix, key ∉ m.base
  base : m.sealed = false → m.base = ∅

theorem get_of_coherent {m : LayeredMap K V} (h : m.Coherent) (key : K) :
    m.get key = ((m.overrides.lookup key).or (m.base.lookup key)).or (m.suffix.lookup key) := by
  simp [get, h.removed]

theorem containsKey_iff {m : LayeredMap K V} (h : m.Coherent) {key : K} :
    m.containsKey key = true ↔ ∃ value, m.get key = some value := by
  rw [get_of_coherent h, ← Option.isSome_iff_exists, Option.isSome_or, Option.isSome_or]
  simp only [containsKey, h.removed, Finset.notMem_empty, not_false_eq_true, true_and,
    Bool.or_eq_true, decide_eq_true_eq, lookup_isSome]
  constructor
  · rintro (hbase | hsuffix)
    · exact .inl (.inr hbase)
    · exact .inr hsuffix
  · rintro ((hover | hbase) | hsuffix)
    · exact .inl (h.overrides key hover)
    · exact .inl hbase
    · exact .inr hsuffix

theorem coherent_ofMap (entries : FxHashMap K V) : (ofMap entries).Coherent where
  removed := rfl
  overrides _ hmem := absurd hmem notMem_empty
  suffix _ _ := notMem_empty
  base _ := rfl

theorem get_ofMap (entries : FxHashMap K V) (key : K) :
    (ofMap entries).get key = entries.lookup key := by
  simp [get, ofMap]

/-- The iteration lists what is visible. -/
theorem mem_iter {m : LayeredMap Nat V} (h : m.Coherent) {key : Nat} {value : V} :
    (key, value) ∈ m.iter ↔ m.get key = some value := by
  rw [get_of_coherent h]
  simp only [iter, h.removed, Finset.notMem_empty, not_false_eq_true, and_true, mem_append,
    mem_filter, FxHashMap.mem_sortedEntries, decide_eq_true_eq, ← lookup_eq_none]
  cases hover : m.overrides.lookup key with
  | some hidden =>
    have hbase : key ∈ m.base := h.overrides key (mem_of_lookup_eq_some hover)
    have hsuffix : m.suffix.lookup key = none :=
      lookup_eq_none.mpr (fun hmem => h.suffix key hmem hbase)
    simp [hsuffix]
  | none =>
    cases hbase : m.base.lookup key with
    | some shared =>
      have hsuffix : m.suffix.lookup key = none :=
        lookup_eq_none.mpr (fun hmem =>
          h.suffix key hmem (mem_of_lookup_eq_some hbase))
      simp [hsuffix]
    | none => simp

theorem insertLocal_of_coherent {m : LayeredMap K V} (h : m.Coherent) (key : K) (value : V)
    (hwritable : key ∉ m.base ∨ m.prefixOverridesEnabled = true) :
    ∃ previous m', m.insertLocal key value = .ok (previous, m') ∧ m'.Coherent ∧
      m'.base = m.base ∧ m'.sealed = m.sealed ∧
      m'.prefixOverridesEnabled = m.prefixOverridesEnabled ∧
      ∀ other, m'.get other = if other = key then some value else m.get other := by
  by_cases hbase : key ∈ m.base
  · have henabled : m.prefixOverridesEnabled = true :=
      hwritable.resolve_left (fun habsent => habsent hbase)
    have hcoherent : Coherent { m with
        removed := m.removed.erase key, overrides := m.overrides.insert key value } := by
      refine ⟨by simp [h.removed], fun other hmem => ?_, h.suffix, h.base⟩
      rcases mem_insert.mp hmem with rfl | hmem
      · exact hbase
      · exact h.overrides other hmem
    refine ⟨_, _, by rw [insertLocal, if_pos hbase, if_pos henabled], hcoherent, rfl, rfl, rfl,
      fun other => ?_⟩
    rw [get_of_coherent hcoherent, get_of_coherent h]
    by_cases heq : other = key
    · subst heq
      simp [lookup_insert]
    · simp [lookup_insert_of_ne _ heq, heq]
  · have hcoherent : Coherent { m with suffix := m.suffix.insert key value } := by
      refine ⟨h.removed, h.overrides, fun other hmem => ?_, h.base⟩
      rcases mem_insert.mp hmem with rfl | hmem
      · exact hbase
      · exact h.suffix other hmem
    refine ⟨_, _, by rw [insertLocal, if_neg hbase], hcoherent, rfl, rfl, rfl, fun other => ?_⟩
    rw [get_of_coherent hcoherent, get_of_coherent h]
    by_cases heq : other = key
    · subst heq
      have hover : m.overrides.lookup other = none :=
        lookup_eq_none.mpr (fun hmem => hbase (h.overrides other hmem))
      simp [lookup_insert, hover, lookup_eq_none.mpr hbase]
    · simp [lookup_insert_of_ne _ heq, heq]

/-- Entries with new keys are inserted. -/
theorem insertEntries_of_coherent {m : LayeredMap K V} (h : m.Coherent) (entries : List (K × V))
    (hnew : ∀ entry ∈ entries, entry.1 ∉ m.base)
    (hunique : ∀ key value other, (key, value) ∈ entries → (key, other) ∈ entries →
      value = other) :
    ∃ m', m.insertEntries entries = some m' ∧ m'.Coherent ∧ m'.sealed = m.sealed ∧
      (∀ key value, (key, value) ∈ entries → m'.get key = some value) ∧
      ∀ key, (∀ value, (key, value) ∉ entries) → m'.get key = m.get key := by
  induction entries generalizing m with
  | nil => exact ⟨m, rfl, h, rfl, fun _ _ hmem => absurd hmem not_mem_nil, fun _ _ => rfl⟩
  | cons entry entries ih =>
    obtain ⟨first, added⟩ := entry
    obtain ⟨previous, middle, hinsert, hcoherent, hbase, hsealed, _, hget⟩ :=
      insertLocal_of_coherent h first added (.inl (hnew _ mem_cons_self))
    obtain ⟨last, hlast, hlastCoherent, hlastSealed, hlisted, hother⟩ := ih hcoherent
      (fun entry hmem => hbase ▸ hnew entry (mem_cons_of_mem _ hmem))
      (fun key value other hvalue hother' => hunique key value other
        (mem_cons_of_mem _ hvalue) (mem_cons_of_mem _ hother'))
    refine ⟨last, ?_, hlastCoherent, hlastSealed.trans hsealed, ?_, ?_⟩
    · rw [insertEntries, foldlM_cons, hinsert]
      exact hlast
    · intro key value hmem
      by_cases hlater : ∃ other, (key, other) ∈ entries
      · obtain ⟨other, hmem'⟩ := hlater
        rw [hunique key value other hmem (mem_cons_of_mem _ hmem')]
        exact hlisted key other hmem'
      · rcases mem_cons.mp hmem with heq | hmem
        · cases heq
          rw [hother first (fun other hmem' => hlater ⟨other, hmem'⟩), hget, if_pos rfl]
        · exact absurd ⟨value, hmem⟩ hlater
    · intro key habsent
      rw [hother key (fun value hmem => habsent value (mem_cons_of_mem _ hmem)), hget, if_neg]
      rintro rfl
      exact habsent added mem_cons_self

/-- The entries of a map with other keys are inserted. -/
theorem insertIter_of_coherent {m extension : LayeredMap Nat V} (h : m.Coherent)
    (hextension : extension.Coherent)
    (hdisjoint : extension.iter.any (fun entry => m.containsKey entry.1) = false) :
    ∃ m', m.insertEntries extension.iter = some m' ∧ m'.Coherent ∧ m'.sealed = m.sealed ∧
      (∀ key, m'.get key = (extension.get key).or (m.get key)) ∧
      ∀ key value, extension.get key = some value → m.get key = none := by
  have hnew : ∀ key value, (key, value) ∈ extension.iter → m.containsKey key = false := by
    intro key value hmem
    simpa using any_eq_false.mp hdisjoint _ hmem
  obtain ⟨m', hok, hcoherent, hsealed, hlisted, hother⟩ := insertEntries_of_coherent h
    extension.iter (fun entry hmem hbase => by
      have hcontains := hnew entry.1 entry.2 hmem
      simp [containsKey, h.removed, hbase] at hcontains)
    (fun key value other hvalue hother => Option.some.inj
      (((mem_iter hextension).mp hvalue).symm.trans ((mem_iter hextension).mp hother)))
  refine ⟨m', hok, hcoherent, hsealed, fun key => ?_, fun key value hvalue => ?_⟩
  · cases hvalue : extension.get key with
    | some value => exact hlisted key value ((mem_iter hextension).mpr hvalue)
    | none =>
      apply hother key
      intro value hmem
      rw [(mem_iter hextension).mp hmem] at hvalue
      cases hvalue
  · have hcontains := hnew key value ((mem_iter hextension).mpr hvalue)
    by_contra hsome
    obtain ⟨found, hfound⟩ := Option.ne_none_iff_exists'.mp hsome
    rw [(containsKey_iff h).mpr ⟨found, hfound⟩] at hcontains
    cases hcontains

theorem coherent_of_plain {m : LayeredMap K V} (h : m.Plain) (hsuffix : m.suffix = ∅) :
    m.Coherent where
  removed := h.2.1
  overrides key hmem := by
    rw [h.1] at hmem
    exact absurd hmem notMem_empty
  suffix key hmem := by
    rw [hsuffix] at hmem
    exact absurd hmem notMem_empty
  base := h.2.2.2

/-- A coherent map can be frozen exactly once. -/
theorem freezeAsBase_of_coherent {m : LayeredMap K V} (h : m.Coherent) :
    (m.sealed = true ∧ ∃ message, m.freezeAsBase = .error message) ∨
    (m.sealed = false ∧ ∃ w, m.freezeAsBase = .ok w ∧ w.Coherent ∧ w.sealed = true ∧
      ∀ key, w.get key = m.get key) := by
  cases hsealed : m.sealed with
  | true => exact .inl ⟨rfl, _, by simp only [freezeAsBase, hsealed]; rfl⟩
  | false =>
    right
    have hbase := h.base hsealed
    have hover : m.overrides = ∅ := by
      refine ext_lookup (fun key => ?_)
      rw [lookup_empty, lookup_eq_none]
      intro hmem
      have hin := h.overrides key hmem
      rw [hbase] at hin
      exact notMem_empty hin
    have hok : ∃ w, m.freezeAsBase = .ok w := by
      exact ⟨_, by simp [freezeAsBase, hover, h.removed, hbase, hsealed]; rfl⟩
    obtain ⟨w, hw⟩ := hok
    obtain ⟨⟨hplain, hfrozen, hget⟩, hsuffix⟩ := of_freezeAsBase hw
    exact ⟨rfl, w, hw, coherent_of_plain hplain hsuffix, hfrozen, hget⟩

theorem of_forkDelta_coherent {m w : LayeredMap K V} (h : m.forkDelta = .ok w) :
    w.Coherent ∧ w.sealed = true ∧ ∀ key, w.get key = m.get key := by
  obtain ⟨⟨hplain, hsealed, hget⟩, -, hsuffix⟩ := of_forkDelta h
  exact ⟨coherent_of_plain hplain hsuffix, hsealed, hget⟩

theorem of_forkSparseDelta {m w : LayeredMap K V} (h : m.forkSparseDelta = .ok w) :
    w.Coherent ∧ w.sealed = true ∧ ∀ key, w.get key = m.get key := by
  unfold forkSparseDelta at h
  cases hfork : m.forkDelta with
  | error message =>
    rw [hfork] at h
    cases h
  | ok delta =>
    rw [hfork] at h
    cases h
    obtain ⟨hcoherent, hsealed, hget⟩ := of_forkDelta_coherent hfork
    exact ⟨⟨hcoherent.removed, hcoherent.overrides, hcoherent.suffix, hcoherent.base⟩, hsealed, hget⟩

end LayeredMap

/-! ## §3 Sets -/

/-- `LayeredSet`: an immutable base and a private suffix. -/
structure LayeredSet (K : Type) where
  base : FxHashSet K := ∅
  suffix : FxHashSet K := ∅
  sealed : Bool := false

namespace LayeredSet

variable {K : Type} [DecidableEq K]

variable (s : LayeredSet K)

def contains (value : K) : Bool :=
  decide (value ∈ s.base) || decide (value ∈ s.suffix)

/-- Insert and return whether the value is new. -/
def insertLocal (value : K) : Except String (Bool × LayeredSet K) :=
  if value ∈ s.base then .error "layered set cannot replace a sealed entry"
  else .ok (decide (value ∉ s.suffix), { s with suffix := insert value s.suffix })

def freezeAsBase : Except String (LayeredSet K) :=
  if s.sealed || decide (s.base ≠ ∅) then .error "layered set is already sealed"
  else .ok { base := s.suffix, suffix := ∅, sealed := true }

def forkDelta : Except String (LayeredSet K) :=
  if !s.sealed then .error "layered set base is not sealed"
  else if decide (s.suffix ≠ ∅) then .error "layered set has an unpublished suffix"
  else .ok { base := s.base, suffix := ∅, sealed := true }

/-- An unsealed set has no base. -/
def Plain : Prop := s.sealed = false → s.base = ∅

theorem plain_insertLocal {s s' : LayeredSet K} {value : K} {inserted : Bool} (hs : s.Plain)
    (h : s.insertLocal value = .ok (inserted, s')) : s'.Plain ∧ s'.sealed = s.sealed := by
  unfold insertLocal at h
  split at h
  · cases h
  · cases h
    exact ⟨hs, rfl⟩

theorem of_freezeAsBase {s w : LayeredSet K} (h : s.freezeAsBase = .ok w) :
    w.Plain ∧ w.sealed = true ∧ w.suffix = ∅ := by
  unfold freezeAsBase at h
  split at h
  · cases h
  · cases h
    exact ⟨(fun h => by cases h), rfl, rfl⟩

theorem freezeAsBase_ok {s : LayeredSet K} (hplain : s.Plain) (hsealed : s.sealed = false) :
    ∃ w, s.freezeAsBase = .ok w :=
  ⟨_, by simp [freezeAsBase, hplain hsealed, hsealed]; rfl⟩

theorem base_of_insertLocal {s s' : LayeredSet K} {value : K} {inserted : Bool}
    (h : s.insertLocal value = .ok (inserted, s')) : s'.base = s.base := by
  unfold insertLocal at h
  split at h
  · cases h
  · cases h
    rfl

theorem of_forkDelta {s w : LayeredSet K} (h : s.forkDelta = .ok w) :
    w.Plain ∧ w.sealed = true ∧ w.base = s.base := by
  unfold forkDelta at h
  split at h
  · cases h
  · split at h
    · cases h
    · cases h
      exact ⟨(fun h => by cases h), rfl, rfl⟩

theorem forkDelta_ok {s : LayeredSet K} (hsealed : s.sealed = true) (hsuffix : s.suffix = ∅) :
    ∃ w, s.forkDelta = .ok w :=
  ⟨_, by simp [forkDelta, hsuffix, hsealed]; rfl⟩

end LayeredSet

end Typokat.Types
