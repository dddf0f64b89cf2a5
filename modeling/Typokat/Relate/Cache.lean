import Typokat.Relate.Reason

/-!
# Relation Verdict Cache (`typokat-relate/src/relate/cache.rs`)

A speculative caller layers the cache: `savepoint` pushes the settled entries into a
base, `rollback` drops the layer above it and `commit` folds it down.
-/

namespace Typokat.Relate

open Types

/-- The cache key `(src, tgt, relation)`. -/
structure RelationKey where
  src : TypeId
  tgt : TypeId
  kind : RelationKind
  deriving DecidableEq, Repr

/-- `FxHashMap::extend`: the entries of `more` win. -/
def extendMap {K V : Type} [DecidableEq K] (map more : FxHashMap K V) : FxHashMap K V :=
  more ∪ map

@[simp] theorem lookup_extendMap {K V : Type} [DecidableEq K] (map more : FxHashMap K V) (key : K) :
    (extendMap map more).lookup key = (more.lookup key).or (map.lookup key) := by
  unfold extendMap
  by_cases h : key ∈ more
  · obtain ⟨v, hv⟩ := Finmap.mem_iff.mp h
    rw [Finmap.lookup_union_left h, hv]
    rfl
  · rw [Finmap.lookup_union_right h, Finmap.lookup_eq_none.mpr h]
    rfl

/-- Decided relations; `root` has no base, `layer` was pushed by a savepoint. -/
inductive RelationCache
  | root (entries : FxHashMap RelationKey Bool)
  | layer (entries : FxHashMap RelationKey Bool) (base : RelationCache)

namespace RelationCache

/-- `RelationCache::new`. -/
def new : RelationCache := .root ∅

instance : Inhabited RelationCache := ⟨new⟩

/-- The entries of the top layer. -/
def entries : RelationCache → FxHashMap RelationKey Bool
  | .root entries => entries
  | .layer entries _ => entries

/-- Replace the entries of the top layer. -/
def setEntries (entries : FxHashMap RelationKey Bool) : RelationCache → RelationCache
  | .root _ => .root entries
  | .layer _ base => .layer entries base

/-- The layer walk of `lookup`: the topmost layer that knows the key decides. -/
def get : RelationCache → RelationKey → Option Bool
  | .root entries, key => entries.lookup key
  | .layer entries base, key => (entries.lookup key).or (base.get key)

/-- `RelationCache::insert`: the top layer takes the verdict. -/
def insert (cache : RelationCache) (key : RelationKey) (verdict : Bool) : RelationCache :=
  cache.setEntries (cache.entries.insert key verdict)

/-- Promote a completed query's decisions into the top layer. -/
def promote (cache pending : RelationCache) : RelationCache :=
  cache.setEntries (extendMap cache.entries pending.entries)

/-- Open a speculative layer over the settled entries. -/
def savepoint (cache : RelationCache) : RelationCache := .layer ∅ cache

/-- Fold the speculative layer into the one below it; `none` is the panic of a cache
    with no layer to close. -/
def commit : RelationCache → Option RelationCache
  | .root _ => none
  | .layer entries base => some (base.setEntries (extendMap base.entries entries))

/-- Drop the speculative layer; `none` as for `commit`. -/
def rollback : RelationCache → Option RelationCache
  | .root _ => none
  | .layer _ base => some base

/-- The number of open speculative layers. -/
def openLayers : RelationCache → Nat
  | .root _ => 0
  | .layer _ base => base.openLayers + 1

/-- Drop speculative layers until at most `depth` are open. -/
def truncate (depth : Nat) : RelationCache → RelationCache
  | .root entries => .root entries
  | .layer entries base =>
    if base.openLayers < depth then .layer entries base else base.truncate depth

/-! ## §1 What each operation does to lookups and layers -/

@[simp] theorem get_savepoint (cache : RelationCache) : cache.savepoint.get = cache.get := by
  funext key
  simp [savepoint, get]

@[simp] theorem openLayers_savepoint (cache : RelationCache) :
    cache.savepoint.openLayers = cache.openLayers + 1 := rfl

@[simp] theorem openLayers_setEntries (entries : FxHashMap RelationKey Bool) (cache : RelationCache) :
    (cache.setEntries entries).openLayers = cache.openLayers := by
  cases cache <;> rfl

@[simp] theorem openLayers_promote (cache pending : RelationCache) :
    (cache.promote pending).openLayers = cache.openLayers := by
  simp [promote]

theorem get_setEntries_extendMap (cache : RelationCache) (more : FxHashMap RelationKey Bool)
    (key : RelationKey) :
    (cache.setEntries (extendMap cache.entries more)).get key
      = (more.lookup key).or (cache.get key) := by
  cases cache <;> simp [setEntries, entries, get, Option.or_assoc]

theorem get_promote (cache pending : RelationCache) (key : RelationKey) :
    (cache.promote pending).get key = (pending.entries.lookup key).or (cache.get key) :=
  get_setEntries_extendMap cache pending.entries key

/-- Folding a layer down changes no lookup. -/
theorem get_of_commit {cache settled : RelationCache} (h : cache.commit = some settled) :
    settled.get = cache.get := by
  cases cache with
  | root => cases h
  | layer entries base =>
    cases h
    funext key
    exact get_setEntries_extendMap base entries key

theorem openLayers_of_commit {cache settled : RelationCache} (h : cache.commit = some settled) :
    cache.openLayers = settled.openLayers + 1 := by
  cases cache with
  | root => cases h
  | layer entries base =>
    cases h
    simp [openLayers]

variable {cache : RelationCache}

theorem commit_isSome (h : 0 < cache.openLayers) :
    ∃ settled, cache.commit = some settled := by
  cases cache with
  | root => cases h
  | layer entries base => exact ⟨_, rfl⟩

/-! ## §2 Truncation -/

variable {depth : Nat}

theorem truncate_of_le (h : cache.openLayers ≤ depth) :
    cache.truncate depth = cache := by
  cases cache with
  | root => rfl
  | layer entries base =>
    have hb : base.openLayers < depth := h
    simp [truncate, hb]

theorem openLayers_truncate (depth : Nat) (cache : RelationCache) :
    (cache.truncate depth).openLayers = min depth cache.openLayers := by
  induction cache with
  | root => simp [truncate, openLayers]
  | layer entries base ih =>
    by_cases hb : base.openLayers < depth
    · simp only [truncate, hb, if_true, openLayers]
      omega
    · simp only [truncate, hb, if_false, ih, openLayers]
      omega

theorem truncate_truncate {low high : Nat} (h : low ≤ high) (cache : RelationCache) :
    (cache.truncate high).truncate low = cache.truncate low := by
  induction cache with
  | root => rfl
  | layer entries base ih =>
    by_cases hb : base.openLayers < high
    · simp [truncate, hb]
    · have hb' : ¬ base.openLayers < low := by omega
      simp [truncate, hb, hb', ih]

/-- A rollback is a truncation by one layer. -/
theorem rollback_eq_truncate (h : cache.openLayers = depth + 1) :
    cache.rollback = some (cache.truncate depth) := by
  cases cache with
  | root => cases h
  | layer entries base =>
    have hb : base.openLayers = depth := by simpa [openLayers] using h
    simp [rollback, truncate, hb, truncate_of_le]

theorem truncate_setEntries (entries : FxHashMap RelationKey Bool) (h : depth < cache.openLayers) :
    (cache.setEntries entries).truncate depth = cache.truncate depth := by
  cases cache with
  | root => cases h
  | layer top base =>
    have hb : ¬ base.openLayers < depth := by
      simp only [openLayers] at h
      omega
    simp [setEntries, truncate, hb]

theorem truncate_promote (pending : RelationCache) (h : depth < cache.openLayers) :
    (cache.promote pending).truncate depth = cache.truncate depth :=
  truncate_setEntries _ h

/-- Layers two or more below the top do not see a commit. -/
theorem truncate_of_commit {cache settled : RelationCache} (h : cache.commit = some settled)
    (hd : depth < settled.openLayers) :
    settled.truncate depth = cache.truncate depth := by
  cases cache with
  | root => cases h
  | layer entries base =>
    cases h
    rw [openLayers_setEntries] at hd
    have hb : ¬ base.openLayers < depth := by omega
    rw [truncate_setEntries _ hd]
    simp [truncate, hb]

end RelationCache

end Typokat.Relate
