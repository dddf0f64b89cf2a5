import Typokat.Lib.Transitions
import Typokat.Relate.Cache

/-!
# Runs of the Verdict Cache

The layers of the cache against the snapshot machine, with one map for all verdicts that are
visible and one for those that were visible at each savepoint that is still open.

A promoted cache gives its own decisions away and nothing below them; the source asserts that
it has no layers.

## Main Definitions

- `RelationCache.len` : the number of verdicts, computed layer by layer
- `RelationCache.Mirrors` : the cache and all its layers answer as the maps of a machine do

## Main Results

- `RelationCache.len_of_get` : the number of verdicts is the number of visible keys
- `cache_layers_are_snapshots` : **every properly nested run mirrors the snapshot machine**
-/

namespace Typokat.Relate

open Types Lib

/-! ## §1 Operations -/

/-- A change of the cache inside of the open transactions. -/
inductive CacheWrite
  | insert (key : RelationKey) (verdict : Bool)
  | promote (pending : RelationCache)

/-- The change of an ordinary map. -/
def CacheWrite.apply : CacheWrite → FxHashMap RelationKey Bool → FxHashMap RelationKey Bool
  | .insert key verdict, map => map.insert key verdict
  | .promote pending, map => extendMap map pending.entries

namespace RelationCache

variable (cache : RelationCache)

/-- The change of a cache. -/
def write : CacheWrite → RelationCache
  | .insert key verdict => cache.insert key verdict
  | .promote pending => cache.promote pending

/-- One operation; `none` is the panic of a cache with no layer to close. -/
def step : TxEvent CacheWrite → RelationCache → Option RelationCache
  | .write change, cache => some (cache.write change)
  | .savepoint, cache => some cache.savepoint
  | .commit, cache => cache.commit
  | .rollback, cache => cache.rollback

/-- `RelationCache::len`: what a layer shadows is counted once. -/
def len : RelationCache → Nat
  | .root entries => entries.keys.card
  | .layer entries base =>
    base.len + entries.keys.card -
      (entries.keys.filter (fun key => (base.get key).isSome)).card

/-- `RelationCache::is_empty`. -/
def isEmpty : RelationCache → Bool
  | .root entries => FxHashMap.isEmpty entries
  | .layer entries base => FxHashMap.isEmpty entries && base.isEmpty

/-- The caches below the open layers, innermost first. -/
def bases : RelationCache → List RelationCache
  | .root _ => []
  | .layer _ base => base :: base.bases

/-! ## §2 Counting -/

/-- All layers in one map. -/
def visible : RelationCache → FxHashMap RelationKey Bool
  | .root entries => entries
  | .layer entries base => extendMap base.visible entries

@[simp] theorem lookup_visible (key : RelationKey) :
    cache.visible.lookup key = cache.get key := by
  induction cache with
  | root entries => rfl
  | layer entries base ih => simp [visible, get, ih]

theorem mem_visible {cache : RelationCache} {key : RelationKey} :
    key ∈ cache.visible ↔ (cache.get key).isSome = true := by
  rw [← lookup_visible, Finmap.lookup_isSome]

/-- The layers are counted as one map. -/
theorem len_eq_card_visible : cache.len = cache.visible.keys.card := by
  induction cache with
  | root entries => rfl
  | layer entries base ih =>
    have hshadowed : entries.keys.filter (fun key => (base.get key).isSome) =
        entries.keys ∩ base.visible.keys := by
      ext key
      rw [Finset.mem_filter, Finset.mem_inter, Finmap.mem_keys (s := base.visible), mem_visible]
    have hkeys : (extendMap base.visible entries).keys = entries.keys ∪ base.visible.keys :=
      Finmap.keys_union
    rw [len, visible, hkeys, hshadowed, ih, Finset.card_union, Nat.add_comm]

/-- **The number of verdicts is the number of visible keys.** -/
theorem len_of_get {cache : RelationCache} {map : FxHashMap RelationKey Bool}
    (h : ∀ key, cache.get key = map.lookup key) : cache.len = map.keys.card := by
  have heq : cache.visible = map := by
    refine Finmap.ext_lookup (fun key => ?_)
    rw [lookup_visible, h]
  rw [len_eq_card_visible, heq]

/-! ## §3 The mirror -/

/-- The cache answers as the current map does, and the caches below its layers as the maps of
    the savepoints. -/
structure Mirrors (cache : RelationCache) (machine : Snapshot (FxHashMap RelationKey Bool)) :
    Prop where
  current : ∀ key, cache.get key = machine.current.lookup key
  saved : List.Forall₂ (fun base map => ∀ key, base.get key = map.lookup key) cache.bases
    machine.saved

theorem mirrors_new : Mirrors new ⟨∅, []⟩ where
  current := fun _ => rfl
  saved := .nil

theorem length_bases : cache.bases.length = cache.openLayers := by
  induction cache with
  | root => rfl
  | layer entries base ih => simp [bases, openLayers, ih]

theorem bases_setEntries (entries : FxHashMap RelationKey Bool) (cache : RelationCache) :
    (cache.setEntries entries).bases = cache.bases := by
  cases cache <;> rfl

theorem get_insert (key key' : RelationKey) (verdict : Bool) :
    (cache.insert key verdict).get key' = if key' = key then some verdict else cache.get key' := by
  have hlookup : (cache.entries.insert key verdict).lookup key' =
      if key' = key then some verdict else cache.entries.lookup key' := by
    split_ifs with heq
    · rw [heq, Finmap.lookup_insert]
    · exact Finmap.lookup_insert_of_ne _ heq
  cases cache with
  | root entries => exact hlookup
  | layer entries base =>
    simp only [insert, setEntries, get]
    rw [hlookup]
    split_ifs
    · rfl
    · rfl

/-- A write changes the cache as it changes the map. -/
theorem get_write {cache : RelationCache} {map : FxHashMap RelationKey Bool}
    (h : ∀ key, cache.get key = map.lookup key) (change : CacheWrite) (key : RelationKey) :
    (cache.write change).get key = (change.apply map).lookup key := by
  cases change with
  | insert key' verdict =>
    rw [write, get_insert, CacheWrite.apply]
    split_ifs with heq
    · rw [heq, Finmap.lookup_insert]
    · rw [Finmap.lookup_insert_of_ne _ heq, h]
  | promote pending => rw [write, get_promote, CacheWrite.apply, lookup_extendMap, h]

theorem bases_write (change : CacheWrite) :
    (cache.write change).bases = cache.bases := by
  cases change with
  | insert key verdict => exact bases_setEntries _ _
  | promote pending => exact bases_setEntries _ _

/-- **One operation keeps the mirror**, and both machines close a transaction or neither does. -/
theorem Mirrors.step {cache : RelationCache} {machine machine' : Snapshot _}
    (h : Mirrors cache machine) (event : TxEvent CacheWrite)
    (hmachine : Snapshot.step CacheWrite.apply event machine = some machine') :
    ∃ cache', RelationCache.step event cache = some cache' ∧ Mirrors cache' machine' := by
  obtain ⟨current, saved⟩ := machine
  cases event with
  | write change =>
    cases hmachine
    refine ⟨cache.write change, rfl, get_write h.current change, ?_⟩
    rw [bases_write]
    exact h.saved
  | savepoint =>
    cases hmachine
    refine ⟨cache.savepoint, rfl, ?_, .cons h.current h.saved⟩
    rw [get_savepoint]
    exact h.current
  | commit =>
    cases cache with
    | root entries =>
      cases h.saved
      cases hmachine
    | layer entries base =>
      obtain ⟨hget, hsaved⟩ := h
      cases hsaved with
      | cons hbase hrest =>
        cases hmachine
        refine ⟨base.setEntries (extendMap base.entries entries), rfl, ?_, ?_⟩
        · intro key
          rw [get_setEntries_extendMap, ← hget key]
          rfl
        · rw [bases_setEntries]
          exact hrest
  | rollback =>
    cases cache with
    | root entries =>
      cases h.saved
      cases hmachine
    | layer entries base =>
      obtain ⟨hget, hsaved⟩ := h
      cases hsaved with
      | cons hbase hrest =>
        cases hmachine
        exact ⟨base, rfl, hbase, hrest⟩

/-- A run keeps the mirror. -/
theorem Mirrors.run {cache : RelationCache} {machine machine' : Snapshot _}
    (h : Mirrors cache machine) (events : List (TxEvent CacheWrite))
    (hmachine : Lib.run (Snapshot.step CacheWrite.apply) events machine = some machine') :
    ∃ cache', Lib.run RelationCache.step events cache = some cache' ∧ Mirrors cache' machine' :=
  run_simulation RelationCache.step (Snapshot.step CacheWrite.apply) Mirrors (fun _ _ => True)
    (fun event _ _ _ hmirrors _ hstep => hmirrors.step event hstep) events cache machine machine' h
    (fun _ _ _ _ _ => trivial) hmachine

end RelationCache

/-- **Every properly nested run mirrors the snapshot machine.**  The cache answers as the current
    map, the caches below its open layers as the maps of the open savepoints, and each of them
    counts the keys that it knows. -/
theorem cache_layers_are_snapshots {cache : RelationCache}
    {machine : Snapshot (FxHashMap RelationKey Bool)} (hmirrors : cache.Mirrors machine)
    (events : List (TxEvent CacheWrite))
    (hnested : Snapshot.properlyNested cache.openLayers events = true) :
    ∃ cache' machine', Lib.run RelationCache.step events cache = some cache' ∧
      Lib.run (Snapshot.step CacheWrite.apply) events machine = some machine' ∧
      cache'.Mirrors machine' ∧ cache'.len = machine'.current.keys.card ∧
      List.Forall₂ (fun base map => base.len = map.keys.card) cache'.bases machine'.saved := by
  have hdepth : machine.saved.length = cache.openLayers := by
    rw [← cache.length_bases, hmirrors.saved.length_eq]
  obtain ⟨machine', hmachine⟩ :=
    Snapshot.run_of_properlyNested CacheWrite.apply events machine (by rw [hdepth]; exact hnested)
  obtain ⟨cache', hcache, hmirrors'⟩ := hmirrors.run events hmachine
  refine ⟨cache', machine', hcache, hmachine, hmirrors', ?_, ?_⟩
  · exact RelationCache.len_of_get hmirrors'.current
  · exact hmirrors'.saved.imp (fun _ _ h => RelationCache.len_of_get h)

/-- Two verdicts inside of two transactions: the inner one is kept by its commit and dropped with
    the outer one. -/
def nestedTransactions : List (TxEvent CacheWrite) :=
  [.write (.insert ⟨8, 9, .assignable⟩ false), .savepoint,
    .write (.insert ⟨8, 9, .assignable⟩ true), .savepoint,
    .write (.promote (.root (Finmap.singleton ⟨9, 8, .assignable⟩ true))), .commit, .rollback]

theorem cache_layers_are_snapshots_nested :
    ∃ cache machine, Lib.run RelationCache.step nestedTransactions .new = some cache ∧
      Lib.run (Snapshot.step CacheWrite.apply) nestedTransactions ⟨∅, []⟩ = some machine ∧
      cache.Mirrors machine ∧ cache.len = machine.current.keys.card ∧
      List.Forall₂ (fun base map => base.len = map.keys.card) cache.bases machine.saved :=
  cache_layers_are_snapshots RelationCache.mirrors_new nestedTransactions (by decide)

end Typokat.Relate
