import Typokat.Query.Transactions

/-!
# One Speculative Layer

A transaction whose body only writes.  Its rollback gives back the very state it was opened in,
with its journal and its cache layers, also when the body reset the context; its commit finds
the layers it needs.  No assumption is made on the state that the transaction is opened in.

## Main Results

- `Speculating.rollback_eq` : **a rollback restores the state exactly**
- `WellLayered.commit` : a commit closes one layer
- `savepoints_of_balanced` : balanced events leave the open savepoints as they were
-/

namespace Typokat.Query

open Types Relate Lib

namespace SemanticQueryState

/-- Perform a list of writes. -/
def writeAll (writes : List SemanticWrite) (state : SemanticQueryState) : SemanticQueryState :=
  writes.foldl (fun state write => state.write write) state

theorem writeAll_append (writes more : List SemanticWrite) (state : SemanticQueryState) :
    state.writeAll (writes ++ more) = (state.writeAll writes).writeAll more :=
  List.foldl_append

/-- The cache has a layer for each of at least `depth` open savepoints. -/
def WellLayered (depth : Nat) (state : SemanticQueryState) : Prop :=
  depth ≤ state.context.relationCache.openLayers ∧ depth ≤ state.savepoints.length

/-- The state is reached from `entry` by a savepoint and writes. -/
structure Speculating (entry state : SemanticQueryState) : Prop where
  savepoints_eq : state.savepoints = entry.journal.length :: entry.savepoints
  /-- undoing what was journaled since gives the context back, under one more cache layer -/
  undone : ∃ undos entries, state.journal = undos ++ entry.journal ∧
    undos.foldl undo state.context =
      entry.context.withRelations (.layer entries entry.context.relationCache)

variable {state entry : SemanticQueryState} {depth : Nat}

/-! ## §1 Writes -/

/-- What a write keeps: it can be undone, or it only fills the top cache layer. -/
theorem journaled_or_promotes (w : SemanticWrite) (state : SemanticQueryState) :
    Journaled state (state.write w) ∨
      ∃ pending, state.write w = state.promoteRelationCache pending := by
  cases w with
  | commitCacheEntries projection evaluator =>
    exact Or.inl (journaled_commitCacheEntries state projection evaluator)
  | rememberIdentity key identical =>
    refine Or.inl (journaled_record state ({ state.context with
        completedIdentities := state.context.completedIdentities.insert key identical })
      (.completedIdentity key (state.context.completedIdentities.lookup key)) rfl ?_)
    simp only [undo, restoreEntry_insert]
  | rememberRelation key completed =>
    refine Or.inl (journaled_record state ({ state.context with
        completedRelations := state.context.completedRelations.insert key completed })
      (.completedRelation key (state.context.completedRelations.lookup key)) rfl ?_)
    simp only [undo, restoreEntry_insert]
  | takeRelationNoCandidate key =>
    exact Or.inl (journaled_takeRelationNoCandidate state key)
  | insertRelationNoCandidate key =>
    exact Or.inl (journaled_insertRelationNoCandidate state key)
  | markPublicationClean seen =>
    exact Or.inl (journaled_markPublicationClean state seen).1
  | promoteRelationCache pending => exact Or.inr ⟨pending, rfl⟩
  | refreshSemanticContext store publication =>
    refine Or.inl ?_
    show Journaled state (state.refreshSemanticContext store publication)
    unfold refreshSemanticContext
    split
    · exact Journaled.refl state
    · exact journaled_resetSemanticContext state store publication

theorem savepoints_write (w : SemanticWrite) (state : SemanticQueryState) :
    (state.write w).savepoints = state.savepoints := by
  rcases journaled_or_promotes w state with hjournaled | ⟨pending, hpending⟩
  · exact hjournaled.savepoints_eq
  · rw [hpending]
    rfl

/-- A write keeps the cache layers, or builds a cache with one for each savepoint. -/
theorem openLayers_write (w : SemanticWrite) (state : SemanticQueryState) :
    (state.write w).context.relationCache.openLayers = state.context.relationCache.openLayers ∨
      (state.write w).context.relationCache.openLayers = state.savepoints.length := by
  cases w with
  | commitCacheEntries projection evaluator => exact Or.inl rfl
  | rememberIdentity key identical =>
    left
    simp only [write, rememberIdentity, context_record]
  | rememberRelation key completed =>
    left
    simp only [write, rememberRelation, context_record]
  | takeRelationNoCandidate key =>
    left
    simp only [write, takeRelationNoCandidate]
    split <;> simp only [context_record]
  | insertRelationNoCandidate key =>
    left
    simp only [write, insertRelationNoCandidate]
    split <;> simp only [context_record]
  | markPublicationClean seen =>
    left
    simp only [write, (journaled_markPublicationClean state seen).2]
  | promoteRelationCache pending =>
    left
    simp only [write, promoteRelationCache, RelationCache.openLayers_promote]
  | refreshSemanticContext store publication =>
    simp only [write, refreshSemanticContext]
    split
    · exact Or.inl rfl
    · right
      simp only [resetSemanticContext, context_record, SemanticContext.cleared,
        openLayers_iterate_savepoint]

theorem WellLayered.write (h : state.WellLayered depth) (w : SemanticWrite) :
    (state.write w).WellLayered depth := by
  obtain ⟨hlayers, hsavepoints⟩ := h
  refine ⟨?_, by rw [savepoints_write]; exact hsavepoints⟩
  rcases openLayers_write w state with heq | heq
  · rw [heq]
    exact hlayers
  · rw [heq]
    exact hsavepoints

theorem WellLayered.writeAll (h : state.WellLayered depth) (writes : List SemanticWrite) :
    (state.writeAll writes).WellLayered depth := by
  induction writes generalizing state with
  | nil => exact h
  | cons w writes ih => exact ih (h.write w)

/-- Filling the top layer is dropped with it. -/
theorem Speculating.promote (h : Speculating entry state) (pending : RelationCache) :
    Speculating entry (state.promoteRelationCache pending) := by
  obtain ⟨undos, entries, hjournal, hundone⟩ := h.undone
  refine ⟨h.savepoints_eq, ?_⟩
  rcases foldl_undo_withRelations undos state.context
      (state.context.relationCache.promote pending) with hreset | ⟨hsame, hkept⟩
  · exact ⟨undos, entries, hjournal, hreset.trans hundone⟩
  · -- without a reset the cache is still the one of the state
    rw [hundone] at hkept hsame
    have hcache : state.context.relationCache = .layer entries entry.context.relationCache :=
      hkept.symm
    refine ⟨undos, extendMap entries pending.entries, hjournal, hsame.trans ?_⟩
    rw [hcache]
    rfl

theorem Speculating.write (h : Speculating entry state) (w : SemanticWrite) :
    Speculating entry (state.write w) := by
  rcases journaled_or_promotes w state with hjournaled | ⟨pending, hpending⟩
  · obtain ⟨undos, entries, hjournal, hundone⟩ := h.undone
    have hopen : state.savepoints ≠ [] := by
      rw [h.savepoints_eq]
      simp
    obtain ⟨more, hmore, hback⟩ := hjournaled.undone hopen
    refine ⟨hjournaled.savepoints_eq.trans h.savepoints_eq, more ++ undos, entries, ?_, ?_⟩
    · rw [hmore, hjournal, List.append_assoc]
    · rw [List.foldl_append, hback, hundone]
  · rw [hpending]
    exact h.promote pending

/-! ## §2 Opening and closing -/

theorem speculating_savepoint (entry : SemanticQueryState) :
    Speculating entry entry.savepoint :=
  ⟨rfl, [], ∅, rfl, rfl⟩

/-- Writes in a transaction. -/
theorem speculating_writeAll (h : Speculating entry state) (writes : List SemanticWrite) :
    Speculating entry (state.writeAll writes) := by
  induction writes generalizing state with
  | nil => exact h
  | cons w writes ih => exact ih (h.write w)

/-- **A rollback gives back the state that the transaction was opened in.** -/
theorem Speculating.rollback_eq (h : Speculating entry state) : state.rollback = some entry := by
  obtain ⟨undos, entries, hjournal, hundone⟩ := h.undone
  have hundoTo : undoTo entry.journal.length state.context state.journal =
      (entry.context.withRelations (.layer entries entry.context.relationCache),
        entry.journal) := by
    unfold undoTo
    rw [hjournal, List.length_append, Nat.add_sub_cancel, List.take_left, List.drop_left, hundone]
  have hcache : (undoTo entry.journal.length state.context state.journal).1.relationCache.rollback =
      some entry.context.relationCache := by
    rw [hundoTo]
    rfl
  rw [Query.rollback_eq h.savepoints_eq hcache, hundoTo]
  rfl

theorem WellLayered.savepoint (h : state.WellLayered depth) :
    state.savepoint.WellLayered (depth + 1) := by
  obtain ⟨hlayers, hsavepoints⟩ := h
  constructor
  · show depth + 1 ≤ state.context.relationCache.openLayers + 1
    omega
  · show depth + 1 ≤ (state.journal.length :: state.savepoints).length
    rw [List.length_cons]
    omega

/-- A commit closes one layer. -/
theorem WellLayered.commit (h : state.WellLayered (depth + 1)) :
    ∃ state', state.commit = some state' ∧ state'.WellLayered depth ∧
      state'.savepoints = state.savepoints.tail := by
  obtain ⟨hlayers, hsavepoints⟩ := h
  cases hs : state.savepoints with
  | nil =>
    rw [hs, List.length_nil] at hsavepoints
    omega
  | cons mark savepoints =>
    obtain ⟨cache, hcache⟩ := RelationCache.commit_isSome (by omega :
      0 < state.context.relationCache.openLayers)
    have hopen := RelationCache.openLayers_of_commit hcache
    rw [hs, List.length_cons] at hsavepoints
    refine ⟨_, commit_eq hs hcache, ⟨?_, ?_⟩, rfl⟩
    · show depth ≤ cache.openLayers
      omega
    · show depth ≤ savepoints.length
      omega

theorem wellLayered_zero (state : SemanticQueryState) : state.WellLayered 0 :=
  ⟨Nat.zero_le _, Nat.zero_le _⟩

/-! ## §3 Runs -/

/-- Writes as events. -/
theorem run_writes (writes : List SemanticWrite) (state : SemanticQueryState) :
    run step (writes.map TxEvent.write) state = some (state.writeAll writes) := by
  induction writes generalizing state with
  | nil => rfl
  | cons w writes ih =>
    rw [List.map_cons, run_cons]
    exact ih (state.write w)

/-- Writes in front of balanced events. -/
theorem balanced_writes_append (writes : List SemanticWrite) {events : List (TxEvent SemanticWrite)}
    (h : Snapshot.Balanced events) :
    Snapshot.Balanced (writes.map TxEvent.write ++ events) := by
  induction writes with
  | nil => exact h
  | cons w writes ih => exact .write w ih

theorem savepoints_commit {state' : SemanticQueryState} (h : state.commit = some state') :
    state'.savepoints = state.savepoints.tail := by
  unfold commit at h
  cases hs : state.savepoints with
  | nil =>
    rw [hs] at h
    cases h
  | cons mark savepoints =>
    rw [hs] at h
    obtain ⟨cache, _, hstate⟩ := Option.bind_eq_some_iff.mp h
    cases hstate
    rfl

theorem savepoints_rollback {state' : SemanticQueryState} (h : state.rollback = some state') :
    state'.savepoints = state.savepoints.tail := by
  unfold rollback at h
  cases hs : state.savepoints with
  | nil =>
    rw [hs] at h
    cases h
  | cons mark savepoints =>
    rw [hs] at h
    obtain ⟨cache, _, hstate⟩ := Option.bind_eq_some_iff.mp h
    cases hstate
    rfl

/-- **Balanced events leave the open savepoints as they were.** -/
theorem savepoints_of_balanced {events : List (TxEvent SemanticWrite)}
    (hbalanced : Snapshot.Balanced events) {state state' : SemanticQueryState}
    (hrun : run step events state = some state') : state'.savepoints = state.savepoints := by
  induction hbalanced generalizing state state' with
  | nil =>
    cases hrun
    rfl
  | write w _ ih =>
    rw [run_cons] at hrun
    rw [ih hrun, savepoints_write]
  | commit _ _ ihBody ihRest =>
    rw [run_cons] at hrun
    obtain ⟨s₁, hs₁, hrun⟩ := Option.bind_eq_some_iff.mp hrun
    cases hs₁
    rw [run_append] at hrun
    obtain ⟨s₂, hbody, hrun⟩ := Option.bind_eq_some_iff.mp hrun
    rw [run_cons] at hrun
    obtain ⟨s₃, hcommit, hrest⟩ := Option.bind_eq_some_iff.mp hrun
    rw [ihRest hrest, savepoints_commit hcommit, ihBody hbody]
    rfl
  | rollback _ _ ihBody ihRest =>
    rw [run_cons] at hrun
    obtain ⟨s₁, hs₁, hrun⟩ := Option.bind_eq_some_iff.mp hrun
    cases hs₁
    rw [run_append] at hrun
    obtain ⟨s₂, hbody, hrun⟩ := Option.bind_eq_some_iff.mp hrun
    rw [run_cons] at hrun
    obtain ⟨s₃, hrollback, hrest⟩ := Option.bind_eq_some_iff.mp hrun
    rw [ihRest hrest, savepoints_rollback hrollback, ihBody hbody]
    rfl

end SemanticQueryState

end Typokat.Query
