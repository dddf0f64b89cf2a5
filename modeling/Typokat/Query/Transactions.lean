import Typokat.Query.State

/-!
# Transactions of the Semantic-Query State

The state refines the snapshot machine as long as every rollback finds, in the oldest
context reset it undoes, a relation cache with one layer for each open savepoint.
A commit between a reset and the rollback of an enclosing transaction breaks this: the
cache that comes back still has the committed layer.

## Main Results

- `Holds` : what the journal and the cache layers remember of each open savepoint
- `step_refines` : one event keeps the refinement relation
- `transactions_are_snapshots_iff` : the exact condition on runs
-/

namespace Typokat.Query

open Types Relate Lib SemanticQueryState Snapshot List

/-! ## §1 The abstract effect of a write -/

/-- What a write does to the visible context. -/
def SemanticWrite.apply : SemanticWrite → VisibleContext → VisibleContext
  | .commitCacheEntries projection evaluator, context =>
    { context with
      projectionMemo := SemanticQueryState.extendEntries context.projectionMemo projection
      evaluationMemo := SemanticQueryState.extendEntries context.evaluationMemo evaluator }
  | .rememberIdentity key identical, context =>
    { context with completedIdentities := context.completedIdentities.insert key identical }
  | .rememberRelation key completed, context =>
    { context with completedRelations := context.completedRelations.insert key completed }
  | .takeRelationNoCandidate key, context =>
    { context with
      completedRelationNoCandidates := context.completedRelationNoCandidates.erase key }
  | .insertRelationNoCandidate key, context =>
    { context with
      completedRelationNoCandidates := insert key context.completedRelationNoCandidates }
  | .markPublicationClean seen, context =>
    { context with publicationClean := context.publicationClean ∪ seen.toFinset }
  | .promoteRelationCache pending, context =>
    { context with
      relationCache := fun key =>
        (pending.entries.lookup key).or (context.relationCache key) }
  | .refreshSemanticContext store publication, context =>
    if context.publicationStoreIdentity = some store ∧
        context.publicationSnapshotIdentity = some publication then context
    else
      { SemanticContext.cleared (fun _ => none) with
        publicationStoreIdentity := some store
        publicationSnapshotIdentity := some publication }

/-! ## §2 Undoing a journal -/

/-- The pre-reset context of the oldest reset among some undo records. -/
def oldestReset : List SemanticQueryUndo → Option StoredContext
  | [] => none
  | .contextReset reset :: older => (oldestReset older).or (some reset)
  | _ :: older => oldestReset older

/-- The cache that an undo leaves is the one of the oldest reset. -/
theorem relationCache_foldl_undo (undos : List SemanticQueryUndo) (context : StoredContext) :
    (undos.foldl undo context).relationCache
      = ((oldestReset undos).map (·.relationCache)).getD context.relationCache := by
  induction undos generalizing context with
  | nil => rfl
  | cons u older ih =>
    rw [foldl_cons, ih]
    cases u with
    | contextReset reset =>
      simp only [undo, oldestReset]
      cases oldestReset older <;> rfl
    | _ => rfl

/-- One undo step around another cache: a reset forgets it, every other step keeps it. -/
theorem undo_withRelations (u : SemanticQueryUndo) (context : StoredContext) (cache : RelationCache) :
    undo (context.withRelations cache) u = undo context u ∨
      (undo (context.withRelations cache) u = (undo context u).withRelations cache ∧
        (undo context u).relationCache = context.relationCache) := by
  cases u with
  | contextReset reset => exact .inl rfl
  | _ => exact .inr ⟨rfl, rfl⟩

/-- Undoing around another cache gives the same result up to that cache, which survives
    only when no reset is undone. -/
theorem foldl_undo_withRelations (undos : List SemanticQueryUndo) (context : StoredContext)
    (cache : RelationCache) :
    undos.foldl undo (context.withRelations cache) = undos.foldl undo context ∨
      (undos.foldl undo (context.withRelations cache)
          = (undos.foldl undo context).withRelations cache ∧
        (undos.foldl undo context).relationCache = context.relationCache) := by
  induction undos generalizing context with
  | nil => exact .inr ⟨rfl, rfl⟩
  | cons u older ih =>
    simp only [foldl_cons]
    rcases undo_withRelations u context cache with hreset | ⟨hsame, hsrc⟩
    · exact .inl (by rw [hreset])
    · rw [hsame, ← hsrc]
      exact ih (undo context u)

section Entries

variable {K V : Type} [DecidableEq K]

theorem lookup_restoreEntry_self (map : FxHashMap K V) (key : K) (previous : Option V) :
    (restoreEntry map key previous).lookup key = previous := by
  cases previous with
  | none => exact Finmap.lookup_erase key map
  | some v => exact Finmap.lookup_insert map

theorem lookup_restoreEntry_of_ne (map : FxHashMap K V) {key key' : K} (h : key' ≠ key)
    (previous : Option V) :
    (restoreEntry map key previous).lookup key' = map.lookup key' := by
  cases previous with
  | none => exact Finmap.lookup_erase_ne h
  | some v => exact Finmap.lookup_insert_of_ne map h

/-- Restoring the old value of every changed key restores the map. -/
theorem foldl_restoreEntry (old : FxHashMap K V) (keys : List K) :
    ∀ map : FxHashMap K V, (∀ key, key ∉ keys → map.lookup key = old.lookup key) →
      keys.foldl (fun map key => restoreEntry map key (old.lookup key)) map = old := by
  induction keys with
  | nil =>
    intro map h
    exact Finmap.ext_lookup (fun key => h key (by simp))
  | cons key keys ih =>
    intro map h
    refine ih _ (fun key' hkey' => ?_)
    by_cases hk : key' = key
    · subst hk
      exact lookup_restoreEntry_self _ _ _
    · rw [lookup_restoreEntry_of_ne _ hk]
      exact h key' (by simp [hk, hkey'])

theorem lookup_extendEntries_of_notMem (entries : List (K × V)) {key : K}
    (h : key ∉ entries.map Prod.fst) :
    ∀ map : FxHashMap K V,
      (extendEntries map entries).lookup key = map.lookup key := by
  induction entries with
  | nil => exact fun map => rfl
  | cons entry entries ih =>
    intro map
    simp only [map_cons, mem_cons, not_or] at h
    exact (ih h.2 _).trans (Finmap.lookup_insert_of_ne map h.1)

/-- Undoing the journaled entries of an extended memo gives the old memo back. -/
theorem foldl_restoreEntry_extendEntries (old : FxHashMap K V) (entries : List (K × V)) :
    (entries.map Prod.fst).reverse.foldl
        (fun map key => restoreEntry map key (old.lookup key))
        (extendEntries old entries) = old := by
  refine foldl_restoreEntry old _ _ (fun key hkey => ?_)
  exact lookup_extendEntries_of_notMem entries (by simpa using hkey) old

end Entries

/-! ## §3 What the journal remembers -/

/-- The context, cut down to `depth` cache layers, looks like `v`. -/
def Restores (v : VisibleContext) (depth : Nat) (context : StoredContext) : Prop :=
  context.withRelations (context.relationCache.truncate depth).get = v ∧
    depth < context.relationCache.openLayers

/-- **What is remembered of the open savepoints.**  For each of them, undoing the journal
    down to its mark and dropping the cache layers above it gives back what was visible
    when it was taken. -/
def Holds : StoredContext → List SemanticQueryUndo → List Nat → List VisibleContext → Prop
  | _, journal, [], [] => journal = []
  | context, journal, mark :: marks, v :: saved =>
    mark ≤ journal.length ∧
      Restores v marks.length (undoTo mark context journal).1 ∧
      Holds (undoTo mark context journal).1 (undoTo mark context journal).2 marks saved
  | _, _, _, _ => False

theorem undoTo_append {undos journal : List SemanticQueryUndo} {mark : Nat}
    (hmark : mark ≤ journal.length) {context context' : StoredContext}
    (h : undos.foldl undo context' = context) :
    undoTo mark context' (undos ++ journal) = undoTo mark context journal := by
  have hlen : (undos ++ journal).length - mark = undos.length + (journal.length - mark) := by
    rw [length_append]
    omega
  simp only [undoTo, hlen, take_length_add_append, drop_length_add_append, foldl_append, h]

section Holding

variable {journal : List SemanticQueryUndo} {context : StoredContext} {marks : List Nat}
  {saved : List VisibleContext} (h : Holds context journal marks saved)
include h

/-- A journaled write is remembered through its undo records. -/
theorem Holds.append (undos : List SemanticQueryUndo) (context' : StoredContext)
    (hmarks : marks ≠ []) (hundo : undos.foldl undo context' = context) :
    Holds context' (undos ++ journal) marks saved := by
  cases marks with
  | nil => exact absurd rfl hmarks
  | cons mark marks =>
    cases saved with
    | nil => exact h.elim
    | cons v saved =>
      obtain ⟨hle, hrest⟩ := h
      refine ⟨by rw [length_append]; omega, ?_⟩
      rw [undoTo_append hle hundo]
      exact hrest

/-- Another cache may stand in as long as it agrees on every layer below the marks. -/
theorem Holds.withRelations (cache : RelationCache) (hdepth : marks.length ≤ cache.openLayers)
    (hcache : ∀ k < marks.length, cache.truncate k = context.relationCache.truncate k) :
    Holds (context.withRelations cache) journal marks saved := by
  induction marks generalizing context journal saved with
  | nil =>
    cases saved with
    | nil => exact h
    | cons => exact h.elim
  | cons mark marks ih =>
    cases saved with
    | nil => exact h.elim
    | cons v saved =>
      obtain ⟨hle, hrestores, hrest⟩ := h
      have hlen : marks.length < (mark :: marks).length := by simp
      refine ⟨hle, ?_⟩
      -- an undone reset brings its own cache back; otherwise the stand-in is still there
      rcases foldl_undo_withRelations (journal.take (journal.length - mark)) context cache with
        hreset | ⟨hsame, hsrc⟩
      · have hto : undoTo mark (context.withRelations cache) journal
            = undoTo mark context journal := by
          simp only [undoTo, hreset]
        rw [hto]
        exact ⟨hrestores, hrest⟩
      · have hto : undoTo mark (context.withRelations cache) journal
            = ((undoTo mark context journal).1.withRelations cache,
                (undoTo mark context journal).2) := by
          simp only [undoTo, hsame]
        have hsrc' : (undoTo mark context journal).1.relationCache = context.relationCache := hsrc
        rw [hto]
        refine ⟨⟨?_, lt_of_lt_of_le hlen hdepth⟩, ?_⟩
        · rw [← hrestores.1, hsrc', ← hcache _ hlen]
          rfl
        · refine ih hrest (hlen.le.trans hdepth) (fun k hk => ?_)
          rw [hsrc']
          exact hcache k (hk.trans hlen)

end Holding

/-! ## §4 Refinement -/

/-- The state refines a snapshot machine. -/
structure Refines (state : SemanticQueryState) (machine : Snapshot VisibleContext) : Prop where
  visible_eq : state.visible = machine.current
  layers_eq : state.context.relationCache.openLayers = state.savepoints.length
  holds : Holds state.context state.journal state.savepoints machine.saved

/-- The initial machine. -/
def initialSnapshot : Snapshot VisibleContext := ⟨SemanticQueryState.default.visible, []⟩

theorem refines_default : Refines default initialSnapshot :=
  ⟨rfl, rfl, rfl⟩

/-- A write that can be undone from the journal. -/
structure Journaled (state state' : SemanticQueryState) : Prop where
  savepoints_eq : state'.savepoints = state.savepoints
  layers_eq : state.context.relationCache.openLayers = state.savepoints.length →
    state'.context.relationCache.openLayers = state.savepoints.length
  quiet : state.savepoints = [] → state'.journal = state.journal
  undone : state.savepoints ≠ [] →
    ∃ undos, state'.journal = undos ++ state.journal ∧
      undos.foldl undo state'.context = state.context

variable {machine : Snapshot VisibleContext}

theorem Journaled.refines {state state' : SemanticQueryState} {v : VisibleContext}
    (h : Journaled state state') (hvisible : state'.visible = v) (hR : Refines state machine) :
    Refines state' ⟨v, machine.saved⟩ := by
  refine ⟨hvisible, ?_, ?_⟩
  · rw [h.savepoints_eq]
    exact h.layers_eq hR.layers_eq
  · have hholds := hR.holds
    rw [h.savepoints_eq]
    cases hs : state.savepoints with
    | nil =>
      rw [hs] at hholds
      rw [h.quiet hs]
      cases hm : machine.saved with
      | nil => rwa [hm] at hholds
      | cons => rw [hm] at hholds; exact hholds.elim
    | cons mark marks =>
      obtain ⟨undos, hj, hundo⟩ := h.undone (by simp [hs])
      rw [hj, ← hs]
      exact hholds.append undos state'.context (by simp [hs]) hundo

/-- The common shape of the single-record writes: change the context, then record. -/
theorem journaled_record (state : SemanticQueryState) (context : StoredContext)
    (u : SemanticQueryUndo) (hcache : context.relationCache = state.context.relationCache)
    (hundo : undo context u = state.context) :
    Journaled state ({ state with context := context }.record u) := by
  by_cases hs : state.savepoints = []
  · refine ⟨?_, ?_, ?_, fun h => absurd hs h⟩ <;>
      simp [record, speculative, hs, hcache]
  · have hspec : state.savepoints.isEmpty = false := by simpa using hs
    refine ⟨?_, ?_, fun h => absurd h hs, fun _ => ⟨[u], ?_, ?_⟩⟩ <;>
      simp [record, speculative, hspec, hcache, hundo]

theorem restoreEntry_insert {K V : Type} [DecidableEq K] (map : FxHashMap K V) (key : K) (v : V) :
    restoreEntry (map.insert key v) key (map.lookup key) = map := by
  refine foldl_restoreEntry map [key] (map.insert key v) (fun key' h => ?_)
  exact Finmap.lookup_insert_of_ne map (by simpa using h)

theorem context_record (state : SemanticQueryState) (u : SemanticQueryUndo) :
    (state.record u).context = state.context := by
  unfold record
  split <;> rfl

/-! ## §5 Each write -/

theorem Journaled.refl (state : SemanticQueryState) : Journaled state state :=
  ⟨rfl, id, fun _ => rfl, fun _ => ⟨[], rfl, rfl⟩⟩

theorem Journaled.trans {a b c : SemanticQueryState} (hab : Journaled a b) (hbc : Journaled b c) :
    Journaled a c := by
  have hs := hab.savepoints_eq
  refine ⟨hbc.savepoints_eq.trans hs, fun h => ?_, fun h => ?_, fun h => ?_⟩
  · rw [← hs]
    exact hbc.layers_eq (by rw [hs]; exact hab.layers_eq h)
  · rw [hbc.quiet (by rw [hs, h]), hab.quiet h]
  · obtain ⟨us, hus, hua⟩ := hab.undone h
    obtain ⟨vs, hvs, hvb⟩ := hbc.undone (by rwa [hs])
    refine ⟨vs ++ us, by rw [hvs, hus, append_assoc], ?_⟩
    rw [foldl_append, hvb, hua]

/-- The journaled memo entries undo one memo after the other. -/
theorem foldl_undo_memoEntries (context : StoredContext)
    (projection evaluation : FxHashMap TypeId TypeId) (ps es : List TypeId) :
    ((es.map (fun key => SemanticQueryUndo.evaluationMemo key (evaluation.lookup key))) ++
        ps.map (fun key => SemanticQueryUndo.projectionMemo key (projection.lookup key))).foldl
        undo context
      = { context with
          projectionMemo := ps.foldl
            (fun map key => restoreEntry map key (projection.lookup key)) context.projectionMemo
          evaluationMemo := es.foldl
            (fun map key => restoreEntry map key (evaluation.lookup key))
            context.evaluationMemo } := by
  rw [foldl_append]
  induction es generalizing context with
  | nil =>
    induction ps generalizing context with
    | nil => rfl
    | cons key ps ih => exact ih _
  | cons key es ih => exact ih _

theorem journaled_commitCacheEntries (state : SemanticQueryState)
    (projection evaluator : List (TypeId × TypeId)) :
    Journaled state (state.commitCacheEntries projection evaluator) := by
  by_cases hs : state.savepoints = []
  · refine ⟨rfl, id, fun _ => ?_, fun h => absurd hs h⟩
    simp [commitCacheEntries, speculative, hs]
  · have hspec : state.savepoints.isEmpty = false := by simpa using hs
    refine ⟨rfl, id, fun h => absurd h hs, fun _ => ?_⟩
    refine ⟨(evaluator.map Prod.fst).reverse.map (fun key =>
          SemanticQueryUndo.evaluationMemo key (state.context.evaluationMemo.lookup key)) ++
        (projection.map Prod.fst).reverse.map (fun key =>
          SemanticQueryUndo.projectionMemo key (state.context.projectionMemo.lookup key)), ?_, ?_⟩
    · simp [commitCacheEntries, speculative, hspec, map_reverse, Function.comp_def]
    · rw [foldl_undo_memoEntries]
      simp only [commitCacheEntries, foldl_restoreEntry_extendEntries]

theorem journaled_takeRelationNoCandidate (state : SemanticQueryState) (key : CompletedRelationKey) :
    Journaled state (state.takeRelationNoCandidate key).2 := by
  by_cases hmem : key ∈ state.context.completedRelationNoCandidates
  · have h := journaled_record state
      ({ state.context with
        completedRelationNoCandidates := state.context.completedRelationNoCandidates.erase key })
      (.noCandidateRemoved key) rfl (by simp [undo, Finset.insert_erase hmem])
    simpa [takeRelationNoCandidate, hmem] using h
  · have h : (state.takeRelationNoCandidate key).2 = state := by
      simp [takeRelationNoCandidate, hmem]
    rw [h]
    exact Journaled.refl state

theorem journaled_insertRelationNoCandidate (state : SemanticQueryState)
    (key : CompletedRelationKey) : Journaled state (state.insertRelationNoCandidate key) := by
  by_cases hmem : key ∈ state.context.completedRelationNoCandidates
  · have h : state.insertRelationNoCandidate key = state := by
      simp [insertRelationNoCandidate, hmem, Finset.insert_eq_of_mem hmem]
    rw [h]
    exact Journaled.refl state
  · have h := journaled_record state
      ({ state.context with
        completedRelationNoCandidates :=
          insert key state.context.completedRelationNoCandidates })
      (.noCandidateInserted key) rfl (by simp [undo, Finset.erase_insert hmem])
    simpa [insertRelationNoCandidate, hmem] using h

theorem journaled_markCleanSpeculative (state : SemanticQueryState) (ty : TypeId)
    (hs : state.savepoints ≠ []) : Journaled state (state.markCleanSpeculative ty) := by
  unfold markCleanSpeculative
  split
  · exact Journaled.refl state
  · rename_i hmem
    refine ⟨rfl, id, fun h => absurd h hs, fun _ => ⟨[.publicationClean ty], rfl, ?_⟩⟩
    simp [undo, Finset.erase_insert hmem]

theorem foldl_markCleanSpeculative (seen : List TypeId) (state : SemanticQueryState)
    (hs : state.savepoints ≠ []) :
    Journaled state (seen.foldl markCleanSpeculative state) ∧
      (seen.foldl markCleanSpeculative state).context
        = { state.context with
            publicationClean := state.context.publicationClean ∪ seen.toFinset } := by
  induction seen generalizing state with
  | nil => exact ⟨Journaled.refl state, by simp⟩
  | cons ty seen ih =>
    have hstep := journaled_markCleanSpeculative state ty hs
    obtain ⟨hj, hcontext⟩ := ih (state.markCleanSpeculative ty) (by rwa [hstep.savepoints_eq])
    refine ⟨hstep.trans hj, ?_⟩
    rw [foldl_cons, hcontext]
    unfold markCleanSpeculative
    split
    · rename_i hmem
      simp [Finset.union_insert, Finset.insert_eq_of_mem, hmem]
    · simp [Finset.insert_union, Finset.union_insert]

theorem journaled_markPublicationClean (state : SemanticQueryState) (seen : List TypeId) :
    Journaled state (state.markPublicationClean seen) ∧
      (state.markPublicationClean seen).context
        = { state.context with
            publicationClean := state.context.publicationClean ∪ seen.toFinset } := by
  unfold markPublicationClean
  by_cases hs : state.savepoints = []
  · have hspec : ¬ state.speculative = true := by simp [speculative, hs]
    rw [if_neg hspec]
    exact ⟨⟨rfl, id, fun _ => rfl, fun h => absurd hs h⟩, rfl⟩
  · have hspec : state.speculative = true := by simpa [speculative] using hs
    rw [if_pos hspec]
    exact foldl_markCleanSpeculative seen state hs

@[simp] theorem openLayers_iterate_savepoint (n : Nat) :
    (RelationCache.savepoint^[n] RelationCache.new).openLayers = n := by
  induction n with
  | zero => rfl
  | succ n ih => rw [Function.iterate_succ_apply', RelationCache.openLayers_savepoint, ih]

theorem get_iterate_savepoint (n : Nat) :
    (RelationCache.savepoint^[n] RelationCache.new).get = fun _ => none := by
  induction n with
  | zero => rfl
  | succ n ih => rw [Function.iterate_succ_apply', RelationCache.get_savepoint, ih]

theorem journaled_resetSemanticContext (state : SemanticQueryState)
    (store publication : IdentityToken) :
    Journaled state (state.resetSemanticContext store publication) := by
  by_cases hs : state.savepoints = []
  · refine ⟨?_, ?_, ?_, fun h => absurd hs h⟩ <;>
      simp [resetSemanticContext, record, speculative, hs, SemanticContext.cleared,
        RelationCache.new, RelationCache.openLayers]
  · have hspec : state.savepoints.isEmpty = false := by simpa using hs
    refine ⟨?_, fun _ => ?_, fun h => absurd h hs,
      fun _ => ⟨[.contextReset state.context], ?_, ?_⟩⟩ <;>
      simp [resetSemanticContext, record, speculative, hspec, SemanticContext.cleared, undo]

theorem visible_resetSemanticContext (state : SemanticQueryState)
    (store publication : IdentityToken) :
    (state.resetSemanticContext store publication).visible
      = { SemanticContext.cleared (fun _ => none) with
          publicationStoreIdentity := some store
          publicationSnapshotIdentity := some publication } := by
  simp only [visible, resetSemanticContext, context_record, SemanticContext.visible,
    SemanticContext.cleared, SemanticContext.withRelations, get_iterate_savepoint]

/-- Promotion writes only into the top layer, which no savepoint remembers. -/
theorem refines_promoteRelationCache {state : SemanticQueryState} (pending : RelationCache)
    (hR : Refines state machine) :
    Refines (state.promoteRelationCache pending)
      ⟨SemanticWrite.apply (.promoteRelationCache pending) machine.current, machine.saved⟩ := by
  refine ⟨?_, ?_, ?_⟩
  · rw [← hR.visible_eq]
    simp only [visible, SemanticContext.visible,
      promoteRelationCache, SemanticContext.withRelations, SemanticWrite.apply]
    congr 1
    funext key
    exact RelationCache.get_promote _ _ key
  · simpa [promoteRelationCache] using hR.layers_eq
  · refine hR.holds.withRelations (state.context.relationCache.promote pending) ?_ ?_
    · rw [RelationCache.openLayers_promote, hR.layers_eq]
    · intro k hk
      exact RelationCache.truncate_promote pending (by rwa [hR.layers_eq])

/-- **Every write refines its abstract effect.** -/
theorem refines_write {state : SemanticQueryState} (w : SemanticWrite) (hR : Refines state machine) :
    Refines (state.write w) ⟨w.apply machine.current, machine.saved⟩ := by
  have hcurrent := hR.visible_eq
  cases w with
  | commitCacheEntries projection evaluator =>
    refine (journaled_commitCacheEntries state projection evaluator).refines ?_ hR
    rw [← hcurrent]
    rfl
  | rememberIdentity key identical =>
    refine (journaled_record state ({ state.context with
        completedIdentities := state.context.completedIdentities.insert key identical })
      (.completedIdentity key (state.context.completedIdentities.lookup key)) rfl ?_).refines
      ?_ hR
    · simp only [undo, restoreEntry_insert]
    · rw [← hcurrent, visible, context_record]
      rfl
  | rememberRelation key completed =>
    refine (journaled_record state ({ state.context with
        completedRelations := state.context.completedRelations.insert key completed })
      (.completedRelation key (state.context.completedRelations.lookup key)) rfl ?_).refines
      ?_ hR
    · simp only [undo, restoreEntry_insert]
    · rw [← hcurrent, visible, context_record]
      rfl
  | takeRelationNoCandidate key =>
    refine (journaled_takeRelationNoCandidate state key).refines ?_ hR
    rw [← hcurrent]
    by_cases hmem : key ∈ state.context.completedRelationNoCandidates <;>
      simp [visible, takeRelationNoCandidate, hmem, context_record, SemanticWrite.apply,
        SemanticContext.visible, SemanticContext.withRelations]
  | insertRelationNoCandidate key =>
    refine (journaled_insertRelationNoCandidate state key).refines ?_ hR
    rw [← hcurrent]
    by_cases hmem : key ∈ state.context.completedRelationNoCandidates <;>
      simp [visible, insertRelationNoCandidate, hmem, context_record, SemanticWrite.apply,
        SemanticContext.visible, SemanticContext.withRelations]
  | markPublicationClean seen =>
    obtain ⟨hj, hcontext⟩ := journaled_markPublicationClean state seen
    refine hj.refines ?_ hR
    rw [← hcurrent, visible, hcontext]
    rfl
  | promoteRelationCache pending => exact refines_promoteRelationCache pending hR
  | refreshSemanticContext store publication =>
    have hvisible : machine.current.publicationStoreIdentity
          = state.context.publicationStoreIdentity ∧
        machine.current.publicationSnapshotIdentity
          = state.context.publicationSnapshotIdentity := by
      rw [← hcurrent]
      exact ⟨rfl, rfl⟩
    simp only [write, refreshSemanticContext, SemanticWrite.apply, hvisible.1, hvisible.2]
    -- the same store and publication reset nothing
    split
    · exact hR
    · exact (journaled_resetSemanticContext state store publication).refines
        (visible_resetSemanticContext state store publication) hR

/-! ## §6 Savepoint, commit and rollback -/

theorem refines_savepoint {state : SemanticQueryState} (hR : Refines state machine) :
    Refines state.savepoint ⟨machine.current, machine.current :: machine.saved⟩ := by
  have hcut : state.context.relationCache.savepoint.truncate state.savepoints.length
      = state.context.relationCache := by
    rw [RelationCache.savepoint, RelationCache.truncate, if_neg (by rw [hR.layers_eq]; omega),
      RelationCache.truncate_of_le hR.layers_eq.le]
  have hundo : undoTo state.journal.length state.savepoint.context state.journal
      = (state.context.withRelations state.context.relationCache.savepoint, state.journal) := by
    simp [undoTo, savepoint, SemanticContext.withRelations]
  refine ⟨?_, ?_, ?_⟩
  · rw [← hR.visible_eq]
    simp [visible, savepoint, SemanticContext.visible, SemanticContext.withRelations]
  · simpa [savepoint] using hR.layers_eq
  · refine ⟨le_rfl, ?_, ?_⟩
    · change Restores _ _ (undoTo state.journal.length state.savepoint.context state.journal).1
      rw [hundo]
      refine ⟨?_, ?_⟩
      · simp only [SemanticContext.withRelations, hcut, ← hR.visible_eq]
        rfl
      · simp [SemanticContext.withRelations, hR.layers_eq]
    · change Holds (undoTo state.journal.length state.savepoint.context state.journal).1
        (undoTo state.journal.length state.savepoint.context state.journal).2 _ _
      rw [hundo]
      refine hR.holds.withRelations _ (by simp [hR.layers_eq]) (fun k hk => ?_)
      rw [← RelationCache.truncate_truncate hk.le, hcut]

section Outermost

variable {state : SemanticQueryState} {mark : Nat} {savepoints : List Nat} {cache : RelationCache}
  (hs : state.savepoints = mark :: savepoints)
include hs

/-- What a commit computes once both of its layers are there. -/
theorem commit_eq (hcache : state.context.relationCache.commit = some cache) :
    state.commit = some
      { context := state.context.withRelations cache
        journal := if savepoints.isEmpty then [] else state.journal
        savepoints } := by
  simp only [commit, hs, hcache, Option.bind_eq_bind, Option.bind_some]
  rfl

/-- What a rollback computes once the undone context has a layer to drop. -/
theorem rollback_eq
    (hcache : (undoTo mark state.context state.journal).1.relationCache.rollback = some cache) :
    state.rollback = some
      { context := (undoTo mark state.context state.journal).1.withRelations cache
        journal := (undoTo mark state.context state.journal).2
        savepoints } := by
  simp only [rollback, hs, hcache, Option.bind_eq_bind, Option.bind_some]
  rfl

end Outermost

/-- A commit keeps everything visible and hands its undo records to the enclosing
    transaction. -/
theorem refines_commit {state : SemanticQueryState} {v : VisibleContext}
    {saved : List VisibleContext} (hsaved : machine.saved = v :: saved) (hR : Refines state machine) :
    ∃ state', state.commit = some state' ∧ Refines state' ⟨machine.current, saved⟩ := by
  obtain ⟨hvisible, hlayers, hholds⟩ := hR
  rw [hsaved] at hholds
  cases hs : state.savepoints with
  | nil => rw [hs] at hholds; exact hholds.elim
  | cons mark marks =>
    rw [hs] at hholds hlayers
    have hpos : 0 < state.context.relationCache.openLayers := by
      rw [hlayers]
      simp
    obtain ⟨cache, hcache⟩ := RelationCache.commit_isSome hpos
    have hdepth : cache.openLayers = marks.length := by
      have := RelationCache.openLayers_of_commit hcache
      simp only [length_cons] at hlayers
      omega
    refine ⟨_, commit_eq hs hcache, ?_, hdepth, ?_⟩
    · rw [← hvisible]
      simp only [visible, SemanticContext.visible,
        SemanticContext.withRelations, RelationCache.get_of_commit hcache]
    · obtain ⟨_, _, hrest⟩ := hholds
      cases hm : marks with
      | nil =>
        rw [hm] at hrest
        cases saved with
        | nil => rfl
        | cons => exact hrest.elim
      | cons mark' marks' =>
        -- the enclosing mark now covers the records of both transactions
        have hall : Holds state.context state.journal marks saved := by
          have h := hrest.append (state.journal.take (state.journal.length - mark))
            state.context (by simp [hm]) rfl
          simpa [undoTo] using h
        rw [← hm]
        have hout := hall.withRelations cache hdepth.ge (fun k hk =>
          RelationCache.truncate_of_commit hcache (by omega))
        simpa [hm] using hout

/-- The oldest reset that a rollback would undo, if any, moved aside a relation cache with
    exactly one layer for each savepoint that is still open. -/
def SemanticQueryState.RollbackReady (state : SemanticQueryState) : Prop :=
  ∀ mark savepoints, state.savepoints = mark :: savepoints →
    ∀ reset, oldestReset (state.journal.take (state.journal.length - mark)) = some reset →
      reset.relationCache.openLayers = state.savepoints.length

/-- What the undo of a rollback leaves of the cache layers. -/
theorem openLayers_undoTo {state : SemanticQueryState} {mark : Nat} {savepoints : List Nat}
    (hs : state.savepoints = mark :: savepoints)
    (hlayers : state.context.relationCache.openLayers = state.savepoints.length) :
    state.RollbackReady ↔
      (undoTo mark state.context state.journal).1.relationCache.openLayers
        = state.savepoints.length := by
  have hcache := relationCache_foldl_undo
    (state.journal.take (state.journal.length - mark)) state.context
  constructor
  · intro hready
    simp only [undoTo, hcache]
    cases hreset : oldestReset (state.journal.take (state.journal.length - mark)) with
    | none => exact hlayers
    | some reset => exact hready mark savepoints hs reset hreset
  · intro h mark' savepoints' hs' reset hreset
    rw [hs] at hs'
    cases hs'
    simp only [undoTo, hcache, hreset] at h
    exact h

/-- A rollback that is ready restores the snapshot of its savepoint. -/
theorem refines_rollback {state : SemanticQueryState} {v : VisibleContext}
    {saved : List VisibleContext} (hsaved : machine.saved = v :: saved)
    (hready : state.RollbackReady) (hR : Refines state machine) :
    ∃ state', state.rollback = some state' ∧ Refines state' ⟨v, saved⟩ := by
  obtain ⟨hvisible, hlayers, hholds⟩ := hR
  rw [hsaved] at hholds
  cases hs : state.savepoints with
  | nil => rw [hs] at hholds; exact hholds.elim
  | cons mark marks =>
    have hdepth := (openLayers_undoTo hs hlayers).mp hready
    rw [hs] at hholds hdepth
    obtain ⟨_, ⟨hrestored, hlt⟩, hrest⟩ := hholds
    have hrollback := RelationCache.rollback_eq_truncate hdepth
    have hcut : (RelationCache.truncate marks.length
        (undoTo mark state.context state.journal).1.relationCache).openLayers
          = marks.length := by
      rw [RelationCache.openLayers_truncate]
      omega
    refine ⟨_, rollback_eq hs hrollback, hrestored, hcut, ?_⟩
    exact hrest.withRelations _ hcut.ge (fun k hk => RelationCache.truncate_truncate hk.le _)

/-! ## §7 Runs -/

/-- What one event needs: a rollback must be ready. -/
def EventReady (e : TxEvent SemanticWrite) (state : SemanticQueryState) : Prop :=
  e = .rollback → state.RollbackReady

/-- **One event keeps the refinement.** -/
theorem step_refines (e : TxEvent SemanticWrite) (state : SemanticQueryState)
    (machine machine' : Snapshot VisibleContext) (hR : Refines state machine)
    (hready : EventReady e state)
    (hstep : step SemanticWrite.apply e machine = some machine') :
    ∃ state', state.step e = some state' ∧ Refines state' machine' := by
  obtain ⟨current, saved⟩ := machine
  cases e with
  | write w =>
    cases hstep
    exact ⟨_, rfl, refines_write w hR⟩
  | savepoint =>
    cases hstep
    exact ⟨_, rfl, refines_savepoint hR⟩
  | commit =>
    cases saved with
    | nil => cases hstep
    | cons v saved =>
      cases hstep
      exact refines_commit rfl hR
  | rollback =>
    cases saved with
    | nil => cases hstep
    | cons v saved =>
      cases hstep
      exact refines_rollback rfl (hready rfl) hR

/-- Every rollback of the run finds a state that is ready for it. -/
def RollbacksReady (events : List (TxEvent SemanticWrite)) : Prop :=
  ∀ pre, pre ++ [.rollback] <+: events →
    ∀ state, SemanticQueryState.runEvents pre = some state → state.RollbackReady

/-- Transactions behave as snapshots throughout a run. -/
structure TransactionsAreSnapshots (events : List (TxEvent SemanticWrite)) : Prop where
  /-- a rollback restores what was visible at its savepoint -/
  rollback_restores : ∀ pre body, Snapshot.Balanced body →
    pre ++ .savepoint :: (body ++ [.rollback]) <+: events →
      ∃ before after, SemanticQueryState.runEvents pre = some before ∧
        SemanticQueryState.runEvents (pre ++ .savepoint :: (body ++ [.rollback])) = some after ∧
        after.visible = before.visible
  /-- a commit keeps everything visible -/
  commit_keeps : ∀ pre, pre ++ [.commit] <+: events →
    ∃ before after, SemanticQueryState.runEvents pre = some before ∧
      SemanticQueryState.runEvents (pre ++ [.commit]) = some after ∧
      after.visible = before.visible
  /-- the relation cache has one layer for each open savepoint -/
  layers_match : ∀ pre, pre <+: events →
    ∃ state, SemanticQueryState.runEvents pre = some state ∧
      state.context.relationCache.openLayers = state.savepoints.length

/-- Every prefix of a ready run refines the snapshot machine. -/
theorem run_refines {events : List (TxEvent SemanticWrite)} (hready : RollbacksReady events)
    {pre : List (TxEvent SemanticWrite)} (hpre : pre <+: events)
    (hrun : run (step SemanticWrite.apply) pre initialSnapshot = some machine) :
    ∃ state, runEvents pre = some state ∧ Refines state machine := by
  refine run_simulation step (step SemanticWrite.apply) Refines
    EventReady step_refines pre _ _ _ refines_default ?_ hrun
  rintro pre' e hpre' state hstate rfl
  exact hready pre' (hpre'.trans hpre) state hstate

theorem properlyNested_of_isPrefix {W : Type} {pre events : List (TxEvent W)}
    (hpre : pre <+: events) :
    ∀ depth, properlyNested depth events = true →
      properlyNested depth pre = true := by
  induction pre generalizing events with
  | nil => exact fun _ _ => by simp [properlyNested]
  | cons e pre ih =>
    obtain ⟨post, rfl⟩ := hpre
    have hpost : pre <+: pre ++ post := prefix_append pre post
    rintro (_ | depth) h <;> cases e <;>
      simp only [cons_append, properlyNested] at h ⊢ <;>
      first | exact ih hpost _ h | exact h

/-- A ready, properly nested run keeps its transactions snapshots. -/
theorem transactionsAreSnapshots_of_ready {events : List (TxEvent SemanticWrite)}
    (hnested : properlyNested 0 events = true) (hready : RollbacksReady events) :
    TransactionsAreSnapshots events := by
  -- every prefix of the run is also a run of the snapshot machine
  have hmachine : ∀ pre, pre <+: events →
      ∃ machine, run (step SemanticWrite.apply) pre initialSnapshot = some machine :=
    fun pre hpre => run_of_properlyNested SemanticWrite.apply pre initialSnapshot
      (properlyNested_of_isPrefix hpre 0 hnested)
  refine ⟨?_, ?_, ?_⟩
  · intro pre body hbody hpre
    have hpre₀ : pre <+: events := (prefix_append _ _).trans hpre
    obtain ⟨machine, hrun⟩ := hmachine pre hpre₀
    obtain ⟨before, hbefore, hR⟩ := run_refines hready hpre₀ hrun
    have hrun' : run (step SemanticWrite.apply)
        (pre ++ .savepoint :: (body ++ [.rollback])) initialSnapshot = some machine := by
      rw [run_append, hrun]
      exact run_rollback SemanticWrite.apply hbody machine
    obtain ⟨after, hafter, hR'⟩ := run_refines hready hpre hrun'
    exact ⟨before, after, hbefore, hafter, hR'.visible_eq.trans hR.visible_eq.symm⟩
  · intro pre hpre
    have hpre₀ : pre <+: events := (prefix_append _ _).trans hpre
    obtain ⟨machine, hrun⟩ := hmachine pre hpre₀
    obtain ⟨machine', hrun'⟩ := hmachine _ hpre
    obtain ⟨before, hbefore, hR⟩ := run_refines hready hpre₀ hrun
    obtain ⟨after, hafter, hR'⟩ := run_refines hready hpre hrun'
    rw [run_concat, hrun] at hrun'
    refine ⟨before, after, hbefore, hafter, ?_⟩
    rw [hR'.visible_eq, hR.visible_eq]
    exact current_of_commit SemanticWrite.apply hrun'
  · intro pre hpre
    obtain ⟨machine, hrun⟩ := hmachine pre hpre
    obtain ⟨state, hstate, hR⟩ := run_refines hready hpre hrun
    exact ⟨state, hstate, hR.layers_eq⟩

/-- A rollback that is not ready leaves the wrong number of layers. -/
theorem ready_of_layers {state state' : SemanticQueryState}
    (hlayers : state.context.relationCache.openLayers = state.savepoints.length)
    (hrollback : state.rollback = some state')
    (hlayers' : state'.context.relationCache.openLayers = state'.savepoints.length) :
    state.RollbackReady := by
  cases hs : state.savepoints with
  | nil =>
    intro mark savepoints h
    rw [hs] at h
    cases h
  | cons mark marks =>
    rw [openLayers_undoTo hs hlayers]
    cases hcache : (undoTo mark state.context state.journal).1.relationCache with
    | root entries =>
      simp [rollback, hs, hcache, RelationCache.rollback] at hrollback
    | layer entries base =>
      have hdrop : (undoTo mark state.context state.journal).1.relationCache.rollback
          = some base := by
        rw [hcache]
        rfl
      rw [rollback_eq hs hdrop] at hrollback
      cases hrollback
      have hbase : base.openLayers = marks.length := hlayers'
      simp [RelationCache.openLayers, hbase, hs]

/-- **Semantic-query transactions are snapshots exactly as long as every rollback is
    ready.** -/
theorem transactions_are_snapshots_iff (events : List (TxEvent SemanticWrite))
    (hnested : Snapshot.properlyNested 0 events = true) :
    TransactionsAreSnapshots events ↔ RollbacksReady events := by
  refine ⟨fun h pre hpre state hstate => ?_, transactionsAreSnapshots_of_ready hnested⟩
  obtain ⟨before, hbefore, hlayers⟩ := h.layers_match pre ((prefix_append _ _).trans hpre)
  obtain ⟨after, hafter, hlayers'⟩ := h.layers_match _ hpre
  have hsame : before = state := Option.some.inj (hbefore.symm.trans hstate)
  subst hsame
  have hstep : before.rollback = some after := by
    rw [runEvents, run_concat] at hafter
    rw [runEvents] at hbefore
    rw [hbefore] at hafter
    exact hafter
  exact ready_of_layers hlayers hstep hlayers'

/-- A nested run with a reset inside a rolled-back transaction. -/
theorem transactions_are_snapshots_iff_nested :
    TransactionsAreSnapshots
        [.savepoint, .write (.refreshSemanticContext 1 1), .savepoint, .commit, .rollback] ↔
      RollbacksReady
        [.savepoint, .write (.refreshSemanticContext 1 1), .savepoint, .commit, .rollback] :=
  transactions_are_snapshots_iff _ (by decide)

/-- A verdict promoted inside the outer transaction. -/
def promotedKey : RelationKey := ⟨1, 2, .assignable⟩

/-- The inner transaction resets the context and commits; the outer one then rolls back. -/
def resetThenCommit : List (TxEvent SemanticWrite) :=
  [.savepoint, .write (.promoteRelationCache (RelationCache.new.insert promotedKey true)),
    .savepoint, .write (.refreshSemanticContext 1 1), .commit, .rollback]

/-- **The rollback leaves a layer open with no savepoint, and the rolled-back verdict stays
    visible.** -/
theorem resetThenCommit_not_snapshot :
    Snapshot.properlyNested 0 resetThenCommit = true ∧
      (SemanticQueryState.runEvents resetThenCommit).map
          (fun s => (s.context.relationCache.openLayers, s.savepoints.length,
            s.visible.relationCache promotedKey))
        = some (1, 0, some true) ∧
      ¬ TransactionsAreSnapshots resetThenCommit := by
  have hrun : (runEvents resetThenCommit).map
      (fun s => (s.context.relationCache.openLayers, s.savepoints.length,
        s.visible.relationCache promotedKey)) = some (1, 0, some true) := by
    decide
  refine ⟨by decide, hrun, fun h => ?_⟩
  obtain ⟨state, hstate, hlayers⟩ := h.layers_match resetThenCommit (prefix_refl _)
  rw [hstate] at hrun
  simp only [Option.map_some, Option.some.injEq, Prod.mk.injEq] at hrun
  omega

end Typokat.Query
