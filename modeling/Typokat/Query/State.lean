import Typokat.Lib.Snapshot
import Typokat.Relate.Cache

/-!
# Semantic-Query State (`typokat-check/src/check/query/mod.rs`)

The durable state of the semantic-query coordinator.  A speculative transaction
journals the inverse of each write, except for the relation cache, which layers
itself.  A context reset moves the whole context, its layered cache included, into
the journal.

The journal and the savepoint marks are vectors that are only pushed and popped at
the end, so both are lists with the newest entry first.
-/

namespace Typokat.Query

open Types Relate Lib

/-! ## §1 State -/

/-- The key of a completed identity comparison. -/
abbrev CompletedIdentityKey := TypeId × TypeId

inductive CompletedRelationOperation
  | assignable
  deriving DecidableEq, Repr

structure CompletedRelationKey where
  src : TypeId
  tgt : TypeId
  operation : CompletedRelationOperation
  deriving DecidableEq, Repr

inductive CompletedRelationOutcome
  | yes
  | no (reason : ReasonChain)
  deriving DecidableEq, Repr

/-- A shared identity token (`Arc<()>`), compared by pointer.  The state holds a
    reference to every token it stores, so a live token is never reissued. -/
abbrev IdentityToken := Nat

/-- The fields a context reset moves aside (`ResetSemanticContext`), over the type that
    answers relation lookups. -/
structure SemanticContext (Relations : Type) where
  projectionMemo : FxHashMap TypeId TypeId
  evaluationMemo : FxHashMap TypeId TypeId
  completedIdentities : FxHashMap CompletedIdentityKey Bool
  relationCache : Relations
  completedRelations : FxHashMap CompletedRelationKey CompletedRelationOutcome
  completedRelationNoCandidates : FxHashSet CompletedRelationKey
  publicationClean : FxHashSet TypeId
  publicationStoreIdentity : Option IdentityToken
  publicationSnapshotIdentity : Option IdentityToken

/-- The stored context, with its layered relation cache. -/
abbrev StoredContext := SemanticContext RelationCache

/-- What a reader of the state can see: of the relation cache, its verdicts. -/
abbrev VisibleContext := SemanticContext (RelationKey → Option Bool)

/-- The same context around another relation lookup. -/
def SemanticContext.withRelations {R S : Type} (context : SemanticContext R) (relations : S) :
    SemanticContext S :=
  { context with relationCache := relations }

/-- An empty context, as `Default` builds it. -/
def SemanticContext.cleared {R : Type} (relations : R) : SemanticContext R where
  projectionMemo := ∅
  evaluationMemo := ∅
  completedIdentities := ∅
  relationCache := relations
  completedRelations := ∅
  completedRelationNoCandidates := ∅
  publicationClean := ∅
  publicationStoreIdentity := none
  publicationSnapshotIdentity := none

/-- Everything observable of a stored context. -/
def SemanticContext.visible (context : StoredContext) : VisibleContext :=
  context.withRelations context.relationCache.get

/-- One reversible write against the durable state. -/
inductive SemanticQueryUndo
  | projectionMemo (key : TypeId) (previous : Option TypeId)
  | evaluationMemo (key : TypeId) (previous : Option TypeId)
  | completedIdentity (key : CompletedIdentityKey) (previous : Option Bool)
  | completedRelation (key : CompletedRelationKey) (previous : Option CompletedRelationOutcome)
  | noCandidateInserted (key : CompletedRelationKey)
  | noCandidateRemoved (key : CompletedRelationKey)
  | publicationClean (ty : TypeId)
  | contextReset (reset : StoredContext)

/-- Pass-local durable semantic-query state. -/
structure SemanticQueryState where
  context : StoredContext
  journal : List SemanticQueryUndo
  savepoints : List Nat

namespace SemanticQueryState

/-- `SemanticQueryState::default`. -/
def default : SemanticQueryState := ⟨SemanticContext.cleared RelationCache.new, [], []⟩

/-- Everything observable of the state. -/
def visible (state : SemanticQueryState) : VisibleContext := state.context.visible

end SemanticQueryState

/-! ## §2 Undo -/

/-- Put back whatever the journaled write displaced. -/
def restoreEntry {K V : Type} [DecidableEq K] (map : FxHashMap K V) (key : K) :
    Option V → FxHashMap K V
  | some previous => map.insert key previous
  | none => map.erase key

/-- Undo one journaled write. -/
def undo (context : StoredContext) : SemanticQueryUndo → StoredContext
  | .projectionMemo key previous =>
    { context with projectionMemo := restoreEntry context.projectionMemo key previous }
  | .evaluationMemo key previous =>
    { context with evaluationMemo := restoreEntry context.evaluationMemo key previous }
  | .completedIdentity key previous =>
    { context with completedIdentities := restoreEntry context.completedIdentities key previous }
  | .completedRelation key previous =>
    { context with completedRelations := restoreEntry context.completedRelations key previous }
  | .noCandidateInserted key =>
    { context with
      completedRelationNoCandidates := context.completedRelationNoCandidates.erase key }
  | .noCandidateRemoved key =>
    { context with
      completedRelationNoCandidates := insert key context.completedRelationNoCandidates }
  | .publicationClean ty =>
    { context with publicationClean := context.publicationClean.erase ty }
  | .contextReset reset => reset

/-- Undo the journal entries above a mark, newest first. -/
def undoTo (mark : Nat) (context : StoredContext) (journal : List SemanticQueryUndo) :
    StoredContext × List SemanticQueryUndo :=
  ((journal.take (journal.length - mark)).foldl undo context,
    journal.drop (journal.length - mark))

/-! ## §3 Transactions -/

namespace SemanticQueryState

/-- Open a speculative layer. -/
def savepoint (state : SemanticQueryState) : SemanticQueryState :=
  { context := { state.context with relationCache := state.context.relationCache.savepoint }
    journal := state.journal
    savepoints := state.journal.length :: state.savepoints }

/-- Promote the speculative layer; `none` is the panic of an unmatched commit. -/
def commit (state : SemanticQueryState) : Option SemanticQueryState :=
  match state.savepoints with
  | [] => none
  | _ :: savepoints => do
    let relationCache ← state.context.relationCache.commit
    some
      { context := { state.context with relationCache }
        journal := if savepoints.isEmpty then [] else state.journal
        savepoints }

/-- Discard the speculative layer; `none` is the panic of an unmatched rollback. -/
def rollback (state : SemanticQueryState) : Option SemanticQueryState :=
  match state.savepoints with
  | [] => none
  | mark :: savepoints => do
    let undone := undoTo mark state.context state.journal
    let relationCache ← undone.1.relationCache.rollback
    some { context := { undone.1 with relationCache }, journal := undone.2, savepoints }

/-! ## §4 Writes -/

/-- Whether a speculative layer is open. -/
def speculative (state : SemanticQueryState) : Bool := !state.savepoints.isEmpty

/-- Record an undo step only while a speculative layer can still discard it. -/
def record (state : SemanticQueryState) (undo : SemanticQueryUndo) : SemanticQueryState :=
  if state.speculative then { state with journal := undo :: state.journal } else state

/-- `HashMap::extend` with the entries of a map in its iteration order. -/
def extendEntries {K V : Type} [DecidableEq K] (map : FxHashMap K V) (entries : List (K × V)) :
    FxHashMap K V :=
  entries.foldl (fun map entry => map.insert entry.1 entry.2) map

/-- Publish a query's projection and evaluation results.  Both pending maps are given as
    their entries in iteration order. -/
def commitCacheEntries (pendingProjection pendingEvaluator : List (TypeId × TypeId))
    (state : SemanticQueryState) : SemanticQueryState :=
  let context := state.context
  let projectionUndo := pendingProjection.map
    (fun entry => .projectionMemo entry.1 (context.projectionMemo.lookup entry.1))
  let evaluationUndo := pendingEvaluator.map
    (fun entry => .evaluationMemo entry.1 (context.evaluationMemo.lookup entry.1))
  { context := { context with
      projectionMemo := extendEntries context.projectionMemo pendingProjection
      evaluationMemo := extendEntries context.evaluationMemo pendingEvaluator }
    journal :=
      if state.speculative then
        evaluationUndo.reverse ++ (projectionUndo.reverse ++ state.journal)
      else state.journal
    savepoints := state.savepoints }

def rememberIdentity (key : CompletedIdentityKey) (identical : Bool)
    (state : SemanticQueryState) : SemanticQueryState :=
  let identities := state.context.completedIdentities
  { state with context := { state.context with
      completedIdentities := identities.insert key identical } }.record
    (.completedIdentity key (identities.lookup key))

def rememberRelation (key : CompletedRelationKey) (completed : CompletedRelationOutcome)
    (state : SemanticQueryState) : SemanticQueryState :=
  let relations := state.context.completedRelations
  { state with context := { state.context with
      completedRelations := relations.insert key completed } }.record
    (.completedRelation key (relations.lookup key))

/-- The flag `take_relation_no_candidate` returns is whether `key` was present. -/
def takeRelationNoCandidate (key : CompletedRelationKey) (state : SemanticQueryState) :
    Bool × SemanticQueryState :=
  let candidates := state.context.completedRelationNoCandidates
  let removed := decide (key ∈ candidates)
  let state := { state with context := { state.context with
    completedRelationNoCandidates := candidates.erase key } }
  (removed, if removed then state.record (.noCandidateRemoved key) else state)

def insertRelationNoCandidate (key : CompletedRelationKey) (state : SemanticQueryState) :
    SemanticQueryState :=
  let candidates := state.context.completedRelationNoCandidates
  let inserted := decide (key ∉ candidates)
  let state := { state with context := { state.context with
    completedRelationNoCandidates := insert key candidates } }
  if inserted then state.record (.noCandidateInserted key) else state

/-- One step of the speculative loop of `mark_publication_clean`. -/
def markCleanSpeculative (state : SemanticQueryState) (ty : TypeId) : SemanticQueryState :=
  if ty ∈ state.context.publicationClean then state
  else
    { state with
      context := { state.context with
        publicationClean := insert ty state.context.publicationClean }
      journal := .publicationClean ty :: state.journal }

/-- `seen` is the visited set in its iteration order. -/
def markPublicationClean (seen : List TypeId) (state : SemanticQueryState) :
    SemanticQueryState :=
  if state.speculative then seen.foldl markCleanSpeculative state
  else
    { state with context := { state.context with
        publicationClean := state.context.publicationClean ∪ seen.toFinset } }

/-- Return of the relation cache by `finish_planned`: the query's own verdicts are
    promoted into it. -/
def promoteRelationCache (pending : RelationCache) (state : SemanticQueryState) :
    SemanticQueryState :=
  { state with context := { state.context with
      relationCache := state.context.relationCache.promote pending } }

/-- Drop every memo a changed identity invalidated.  The replacement cache is built with
    one layer for each open savepoint. -/
def resetSemanticContext (storeIdentity publicationIdentity : IdentityToken)
    (state : SemanticQueryState) : SemanticQueryState :=
  let clearedCache := RelationCache.savepoint^[state.savepoints.length] RelationCache.new
  let reset := state.context
  let state := { state with context := SemanticContext.cleared clearedCache }
  let state := state.record (.contextReset reset)
  { state with context := { state.context with
      publicationStoreIdentity := some storeIdentity
      publicationSnapshotIdentity := some publicationIdentity } }

/-- Reset the context when the store or the publication is another one than at the last
    query. -/
def refreshSemanticContext (storeIdentity publicationIdentity : IdentityToken)
    (state : SemanticQueryState) : SemanticQueryState :=
  if state.context.publicationStoreIdentity = some storeIdentity ∧
      state.context.publicationSnapshotIdentity = some publicationIdentity then state
  else state.resetSemanticContext storeIdentity publicationIdentity

end SemanticQueryState

/-! ## §5 Runs -/

/-- The writes of the coordinator. -/
inductive SemanticWrite
  | commitCacheEntries (pendingProjection pendingEvaluator : List (TypeId × TypeId))
  | rememberIdentity (key : CompletedIdentityKey) (identical : Bool)
  | rememberRelation (key : CompletedRelationKey) (completed : CompletedRelationOutcome)
  | takeRelationNoCandidate (key : CompletedRelationKey)
  | insertRelationNoCandidate (key : CompletedRelationKey)
  | markPublicationClean (seen : List TypeId)
  | promoteRelationCache (pending : RelationCache)
  | refreshSemanticContext (storeIdentity publicationIdentity : IdentityToken)

namespace SemanticQueryState

/-- Perform one write. -/
def write : SemanticWrite → SemanticQueryState → SemanticQueryState
  | .commitCacheEntries projection evaluator, state =>
    state.commitCacheEntries projection evaluator
  | .rememberIdentity key identical, state => state.rememberIdentity key identical
  | .rememberRelation key completed, state => state.rememberRelation key completed
  | .takeRelationNoCandidate key, state => (state.takeRelationNoCandidate key).2
  | .insertRelationNoCandidate key, state => state.insertRelationNoCandidate key
  | .markPublicationClean seen, state => state.markPublicationClean seen
  | .promoteRelationCache pending, state => state.promoteRelationCache pending
  | .refreshSemanticContext store publication, state =>
    state.refreshSemanticContext store publication

/-- One event against the durable state. -/
def step : TxEvent SemanticWrite → SemanticQueryState → Option SemanticQueryState
  | .write w, state => some (state.write w)
  | .savepoint, state => some state.savepoint
  | .commit, state => state.commit
  | .rollback, state => state.rollback

/-- Run a list of events from the default state. -/
def runEvents (events : List (TxEvent SemanticWrite)) : Option SemanticQueryState :=
  run step events default

end SemanticQueryState

end Typokat.Query
