import Typokat.Lib.Checks
import Typokat.Lib.Stamps
import Typokat.Lib.Transitions
import Typokat.Check.ClassGraph

/-!
# Layered Class Tables (`typokat-types/src/class_semantics.rs`)

The three maps of `PublishedClasses` as the source layers them: a table is frozen and forked,
a fork is extended, and a sparse fork may replace the surface of a published class.  An
identity token says which tables answer alike; the caches compare it.

The tables that are alive are the entries of a pool.  `extend` consumes its arguments in the
source; here they stay in the pool, as if they were cloned before.  An operation that allocates
no token skips a number.

## Main Results

- `LayeredPublishedClasses.Consistent` : what holds of every table
- `class_tables_consistent` : consistency, and one answer for each token
-/

namespace Typokat.Check

open Types Lib Finmap Option List LayeredMap

/-! ## §1 Tables -/

/-- `PublishedClasses` with its layers and its identity token. -/
structure LayeredPublishedClasses where
  states : LayeredMap ClassId ClassConstructionState := {}
  surfaces : LayeredMap ClassId PublishedClassSurface := {}
  poison : LayeredMap ClassId PublishedClassPoison := {}
  identity : Nat

namespace LayeredPublishedClasses

/-- `PublishedClasses::from_publication`. -/
def fromPublication (states : FxHashMap ClassId ClassConstructionState)
    (surfaces : FxHashMap ClassId PublishedClassSurface)
    (poison : FxHashMap ClassId PublishedClassPoison) (token : Nat) :
    Option LayeredPublishedClasses :=
  (PublishedClasses.fromPublication states surfaces poison).map (fun classes =>
    ⟨.ofMap classes.states, .ofMap classes.surfaces, .ofMap classes.poison, token⟩)

/-- `PublishedClasses::empty`. -/
def empty (token : Nat) : LayeredPublishedClasses := { identity := token }

/-- `PublishedClasses::extend`. -/
def extend (classes extension : LayeredPublishedClasses) (token : Nat) :
    Option LayeredPublishedClasses :=
  if extension.states.iter.any (fun entry => classes.states.containsKey entry.1) ||
      extension.surfaces.iter.any (fun entry => classes.surfaces.containsKey entry.1) ||
      extension.poison.iter.any (fun entry => classes.poison.containsKey entry.1) then none
  else do
    let states ← classes.states.insertEntries extension.states.iter
    let surfaces ← classes.surfaces.insertEntries extension.surfaces.iter
    let poison ← classes.poison.insertEntries extension.poison.iter
    some ⟨states, surfaces, poison, token⟩

/-- `PublishedClasses::freeze_as_base`; the maps that were frozen before an error stay so. -/
def freezeAsBase (classes : LayeredPublishedClasses) :
    Except String Unit × LayeredPublishedClasses :=
  match classes.states.freezeAsBase with
  | .error message => (.error message, classes)
  | .ok states =>
    match classes.surfaces.freezeAsBase with
    | .error message => (.error message, { classes with states })
    | .ok surfaces =>
      match classes.poison.freezeAsBase with
      | .error message => (.error message, { classes with states, surfaces })
      | .ok poison => (.ok (), { classes with states, surfaces, poison })

/-- `PublishedClasses::fork_delta`: the fork has the token of its base. -/
def forkDelta (classes : LayeredPublishedClasses) : Except String LayeredPublishedClasses := do
  let states ← classes.states.forkDelta
  let surfaces ← classes.surfaces.forkDelta
  let poison ← classes.poison.forkDelta
  .ok ⟨states, surfaces, poison, classes.identity⟩

/-- `PublishedClasses::fork_sparse_delta`. -/
def forkSparseDelta (classes : LayeredPublishedClasses) (token : Nat) :
    Except String LayeredPublishedClasses := do
  let states ← classes.states.forkSparseDelta
  let surfaces ← classes.surfaces.forkSparseDelta
  let poison ← classes.poison.forkSparseDelta
  .ok ⟨states, surfaces, poison, token⟩

variable (classes : LayeredPublishedClasses)

/-- `PublishedClasses::require`. -/
def require (classId : ClassId) : DemandOutcome Unit :=
  match classes.states.get classId with
  | some .published => .ready ()
  | some .poisoned =>
    match classes.poison.get classId with
    | some .initializer => .exhausted (.classInitializerPoison classId)
    | some .surface => .exhausted (.classSurfacePoison classId)
    | some .heritage => .exhausted (.classHeritagePoison classId)
    | none => .exhausted (.classHeritagePoison classId)
  | some state => .exhausted (.classNotPublished classId state)
  | none => .exhausted (.classNotPublished classId .pending)

/-- `PublishedClasses::published_class`. -/
def publishedClass (classId : ClassId) :
    DemandOutcome PublishedClassSurface :=
  match classes.require classId with
  | .ready () =>
    match classes.surfaces.get classId with
    | some surface => .ready surface
    | none => .exhausted (.classNotPublished classId .built)
  | .exhausted reason => .exhausted reason

/-- `matches!(outcome, DemandOutcome::Ready(_))`. -/
def isReady (classId : ClassId) : Bool :=
  match classes.publishedClass classId with
  | .ready _ => true
  | .exhausted _ => false

/-- `PublishedClasses::replace_published_surface`; a write before an error stays. -/
def replacePublishedSurface (surface : PublishedClassSurface) (token : Nat) :
    Except String Unit × LayeredPublishedClasses :=
  if !classes.states.prefixOverridesEnabled || !classes.surfaces.prefixOverridesEnabled ||
      !classes.isReady surface.classId then
    (.error "class surface replacement requires a published sparse prefix", classes)
  else
    match classes.states.insertLocal surface.classId .published with
    | .error message => (.error message, classes)
    | .ok (_, states) =>
      match classes.surfaces.insertLocal surface.classId surface with
      | .error message => (.error message, { classes with states })
      | .ok (_, surfaces) => (.ok (), { classes with states, surfaces, identity := token })

end LayeredPublishedClasses

/-! ## §2 The tables that are alive -/

/-- The tables that are alive, and the number of the next token. -/
structure ClassTablePool where
  tables : List LayeredPublishedClasses := []
  nextToken : Nat := 0

inductive ClassTableOp
  | fromPublication (states : FxHashMap ClassId ClassConstructionState)
      (surfaces : FxHashMap ClassId PublishedClassSurface)
      (poison : FxHashMap ClassId PublishedClassPoison)
  | empty
  | extend (index extension : Nat)
  | freezeAsBase (index : Nat)
  | forkDelta (index : Nat)
  | forkSparseDelta (index : Nat)
  | clone (index : Nat)
  | replacePublishedSurface (index : Nat) (surface : PublishedClassSurface)

namespace ClassTablePool

/-- Keep what an operation returned, if it returned a table. -/
def push (pool : ClassTablePool) (result : Option LayeredPublishedClasses) : ClassTablePool :=
  ⟨pool.tables ++ result.toList, pool.nextToken + 1⟩

/-- A table after an operation on it. -/
def write (pool : ClassTablePool) (index : Nat) (table : LayeredPublishedClasses) :
    ClassTablePool :=
  ⟨pool.tables.set index table, pool.nextToken + 1⟩

end ClassTablePool

/-- The pool after an operation; `none` when the operation names a table that is not there. -/
def ClassTableOp.apply (op : ClassTableOp) (pool : ClassTablePool) : Option ClassTablePool :=
  match op with
  | fromPublication states surfaces poison =>
    some (pool.push
      (LayeredPublishedClasses.fromPublication states surfaces poison pool.nextToken))
  | empty => some (pool.push (some (.empty pool.nextToken)))
  | extend index extension => do
    let table ← pool.tables[index]?
    let added ← pool.tables[extension]?
    some (pool.push (table.extend added pool.nextToken))
  | freezeAsBase index => do
    let table ← pool.tables[index]?
    some (pool.write index table.freezeAsBase.2)
  | forkDelta index => do
    let table ← pool.tables[index]?
    some (pool.push table.forkDelta.toOption)
  | forkSparseDelta index => do
    let table ← pool.tables[index]?
    some (pool.push (table.forkSparseDelta pool.nextToken).toOption)
  | clone index => do
    let table ← pool.tables[index]?
    some (pool.push (some table))
  | replacePublishedSurface index surface => do
    let table ← pool.tables[index]?
    some (pool.write index (table.replacePublishedSurface surface pool.nextToken).2)

/-- A table that was alive at some time of a run. -/
def Seen (ops : List ClassTableOp) (table : LayeredPublishedClasses) : Prop :=
  ∃ front back pool, ops = front ++ back ∧ run ClassTableOp.apply front {} = some pool ∧
    table ∈ pool.tables

/-! ## §3 Consistency -/

namespace LayeredPublishedClasses

/-- Every registered class is published with its surface, or poisoned with a cause, and the maps
were frozen together. -/
structure Consistent (table : LayeredPublishedClasses) : Prop where
  states : table.states.Coherent
  surfaces : table.surfaces.Coherent
  poison : table.poison.Coherent
  surfaces_sealed : table.surfaces.sealed = table.states.sealed
  poison_sealed : table.poison.sealed = table.states.sealed
  final : ∀ classId state, table.states.get classId = some state →
    state = .published ∨ state = .poisoned
  surface : ∀ classId surface, table.surfaces.get classId = some surface →
    surface.classId = classId ∧ table.states.get classId = some .published
  published : ∀ classId, table.states.get classId = some .published →
    ∃ surface, table.surfaces.get classId = some surface
  cause : ∀ classId cause, table.poison.get classId = some cause →
    table.states.get classId = some .poisoned
  poisoned : ∀ classId, table.states.get classId = some .poisoned →
    ∃ cause, table.poison.get classId = some cause

/-- Two tables with the same visible entries. -/
structure SameEntries (table other : LayeredPublishedClasses) : Prop where
  states : ∀ classId, other.states.get classId = table.states.get classId
  surfaces : ∀ classId, other.surfaces.get classId = table.surfaces.get classId
  poison : ∀ classId, other.poison.get classId = table.poison.get classId

variable {table other extension : LayeredPublishedClasses}

theorem SameEntries.publishedClass (h : table.SameEntries other) :
    other.publishedClass = table.publishedClass := by
  funext classId
  unfold LayeredPublishedClasses.publishedClass require
  rw [h.states, h.surfaces, h.poison]

/-- A table with the same entries is consistent when its layers are. -/
theorem Consistent.of_sameEntries (h : table.Consistent) (hsame : table.SameEntries other)
    (hstates : other.states.Coherent) (hsurfaces : other.surfaces.Coherent)
    (hpoison : other.poison.Coherent)
    (hsealed : other.surfaces.sealed = other.states.sealed)
    (hsealed' : other.poison.sealed = other.states.sealed) : other.Consistent where
  states := hstates
  surfaces := hsurfaces
  poison := hpoison
  surfaces_sealed := hsealed
  poison_sealed := hsealed'
  final classId state := by
    rw [hsame.states]
    exact h.final classId state
  surface classId surface := by
    rw [hsame.states, hsame.surfaces]
    exact h.surface classId surface
  published classId := by
    rw [hsame.states, hsame.surfaces]
    exact h.published classId
  cause classId cause := by
    rw [hsame.states, hsame.poison]
    exact h.cause classId cause
  poisoned classId := by
    rw [hsame.states, hsame.poison]
    exact h.poisoned classId

theorem consistent_empty (token : Nat) : (empty token).Consistent where
  states := coherent_ofMap ∅
  surfaces := coherent_ofMap ∅
  poison := LayeredMap.coherent_ofMap ∅
  surfaces_sealed := rfl
  poison_sealed := rfl
  final _ _ h := by simp [empty, LayeredMap.get] at h
  surface _ _ h := by simp [empty, LayeredMap.get] at h
  published _ h := by simp [empty, LayeredMap.get] at h
  cause _ _ h := by simp [empty, LayeredMap.get] at h
  poisoned _ h := by simp [empty, LayeredMap.get] at h

/-- **What `from_publication` lets through.** -/
theorem consistent_fromPublication {states : FxHashMap ClassId ClassConstructionState}
    {surfaces : FxHashMap ClassId PublishedClassSurface}
    {poison : FxHashMap ClassId PublishedClassPoison} {token : Nat}
    (h : fromPublication states surfaces poison token = some table) : table.Consistent := by
  obtain ⟨classes, hpublished, rfl⟩ := map_eq_some_iff.mp h
  simp only [PublishedClasses.fromPublication, ite_none_right_eq_some, some.injEq] at hpublished
  obtain ⟨⟨hfinal, hsurface, hcause, ⟨_, hsurfaces⟩, ⟨_, hpoison⟩⟩, rfl⟩ := hpublished
  refine ⟨coherent_ofMap _, coherent_ofMap _, coherent_ofMap _,
    rfl, rfl, ?_, ?_, ?_, ?_, ?_⟩ <;> simp only [get_ofMap]
  · intro classId state hstate
    have hmem := mem_keys.mpr (mem_of_lookup_eq_some hstate)
    rcases hfinal classId hmem with hpublished | hpoisoned
    · exact .inl (some.inj (hstate.symm.trans hpublished))
    · exact .inr (some.inj (hstate.symm.trans hpoisoned))
  · intro classId surface hlookup
    have hmem := mem_keys.mpr (mem_of_lookup_eq_some hlookup)
    obtain ⟨hpublished, howner⟩ := hsurfaces classId hmem
    rw [hlookup] at howner
    exact ⟨some.inj howner, hpublished⟩
  · intro classId hpublished
    have hmem := mem_keys.mpr (mem_of_lookup_eq_some hpublished)
    exact mem_iff.mp (hsurface classId (Finset.mem_filter.mpr ⟨hmem, hpublished⟩))
  · intro classId cause hlookup
    exact hpoison classId (mem_keys.mpr (mem_of_lookup_eq_some hlookup))
  · intro classId hpoisoned
    have hmem := mem_keys.mpr (mem_of_lookup_eq_some hpoisoned)
    exact mem_iff.mp (hcause classId (Finset.mem_filter.mpr ⟨hmem, hpoisoned⟩))

/-- A registered class is not answered as not published. -/
theorem Consistent.registered (h : table.Consistent) {classId : ClassId}
    (hregistered : table.states.get classId ≠ none) (owner : ClassId)
    (state : ClassConstructionState) :
    table.publishedClass classId ≠ .exhausted (.classNotPublished owner state) := by
  obtain ⟨found, hfound⟩ := ne_none_iff_exists'.mp hregistered
  unfold LayeredPublishedClasses.publishedClass require
  rcases h.final classId found hfound with rfl | rfl
  · obtain ⟨surface, hsurface⟩ := h.published classId hfound
    simp [hfound, hsurface]
  · obtain ⟨cause, hcause⟩ := h.poisoned classId hfound
    cases cause <;> simp [hfound, hcause]

/-! ### What each operation keeps -/

theorem freezeAsBase_spec (h : table.Consistent) : table.freezeAsBase.2.Consistent ∧
    table.SameEntries table.freezeAsBase.2 ∧ table.freezeAsBase.2.identity = table.identity := by
  have hself : table.SameEntries table := ⟨fun _ => rfl, fun _ => rfl, fun _ => rfl⟩
  unfold freezeAsBase
  rcases freezeAsBase_of_coherent h.states with ⟨_, message, herror⟩ |
    ⟨hopen, states, hstates, hstatesCoherent, hstatesSealed, hstatesGet⟩
  · rw [herror]
    exact ⟨h, hself, rfl⟩
  · -- the maps are sealed together, so the other two freeze as well
    rcases freezeAsBase_of_coherent h.surfaces with ⟨hsealed, _⟩ |
      ⟨_, surfaces, hsurfaces, hsurfacesCoherent, hsurfacesSealed, hsurfacesGet⟩
    · rw [h.surfaces_sealed, hopen] at hsealed
      cases hsealed
    rcases freezeAsBase_of_coherent h.poison with ⟨hsealed, _⟩ |
      ⟨_, poison, hpoison, hpoisonCoherent, hpoisonSealed, hpoisonGet⟩
    · rw [h.poison_sealed, hopen] at hsealed
      cases hsealed
    rw [hstates, hsurfaces, hpoison]
    have hsame : table.SameEntries { table with states, surfaces, poison } :=
      ⟨hstatesGet, hsurfacesGet, hpoisonGet⟩
    exact ⟨h.of_sameEntries hsame hstatesCoherent hsurfacesCoherent hpoisonCoherent
      (hsurfacesSealed.trans hstatesSealed.symm) (hpoisonSealed.trans hstatesSealed.symm), hsame, rfl⟩

theorem forkDelta_spec (h : table.Consistent) (hfork : table.forkDelta = .ok other) :
    other.Consistent ∧ table.SameEntries other ∧ other.identity = table.identity := by
  unfold forkDelta at hfork
  obtain ⟨states, hstates, hfork⟩ := bind_eq_ok.mp hfork
  obtain ⟨surfaces, hsurfaces, hfork⟩ := bind_eq_ok.mp hfork
  obtain ⟨poison, hpoison, hfork⟩ := bind_eq_ok.mp hfork
  cases hfork
  obtain ⟨hstatesCoherent, hstatesSealed, hstatesGet⟩ := of_forkDelta_coherent hstates
  obtain ⟨hsurfacesCoherent, hsurfacesSealed, hsurfacesGet⟩ :=
    of_forkDelta_coherent hsurfaces
  obtain ⟨hpoisonCoherent, hpoisonSealed, hpoisonGet⟩ := of_forkDelta_coherent hpoison
  have hsame : table.SameEntries ⟨states, surfaces, poison, table.identity⟩ :=
    ⟨hstatesGet, hsurfacesGet, hpoisonGet⟩
  exact ⟨h.of_sameEntries hsame hstatesCoherent hsurfacesCoherent hpoisonCoherent
    (hsurfacesSealed.trans hstatesSealed.symm) (hpoisonSealed.trans hstatesSealed.symm), hsame, rfl⟩

theorem forkSparseDelta_spec (h : table.Consistent) {token : Nat}
    (hfork : table.forkSparseDelta token = .ok other) :
    other.Consistent ∧ other.identity = token := by
  unfold forkSparseDelta at hfork
  obtain ⟨states, hstates, hfork⟩ := bind_eq_ok.mp hfork
  obtain ⟨surfaces, hsurfaces, hfork⟩ := bind_eq_ok.mp hfork
  obtain ⟨poison, hpoison, hfork⟩ := bind_eq_ok.mp hfork
  cases hfork
  obtain ⟨hstatesCoherent, hstatesSealed, hstatesGet⟩ := of_forkSparseDelta hstates
  obtain ⟨hsurfacesCoherent, hsurfacesSealed, hsurfacesGet⟩ :=
    of_forkSparseDelta hsurfaces
  obtain ⟨hpoisonCoherent, hpoisonSealed, hpoisonGet⟩ := of_forkSparseDelta hpoison
  have hsame : table.SameEntries ⟨states, surfaces, poison, token⟩ :=
    ⟨hstatesGet, hsurfacesGet, hpoisonGet⟩
  exact ⟨h.of_sameEntries hsame hstatesCoherent hsurfacesCoherent hpoisonCoherent
    (hsurfacesSealed.trans hstatesSealed.symm) (hpoisonSealed.trans hstatesSealed.symm), rfl⟩

/-- A registered class is the same class in all three maps, so disjoint tables extend to a
consistent one. -/
theorem extend_spec (h : table.Consistent) (hextension : extension.Consistent) {token : Nat}
    (hextend : table.extend extension token = some other) :
    other.Consistent ∧ other.identity = token := by
  unfold extend at hextend
  split at hextend
  · cases hextend
  rename_i hdisjoint
  simp only [Bool.or_eq_true, not_or, Bool.not_eq_true] at hdisjoint
  obtain ⟨⟨hstates, hsurfaces⟩, hpoison⟩ := hdisjoint
  obtain ⟨states, hstatesOk, hstatesCoherent, hstatesSealed, hstatesGet, hstatesNew⟩ :=
    insertIter_of_coherent h.states hextension.states hstates
  obtain ⟨surfaces, hsurfacesOk, hsurfacesCoherent, hsurfacesSealed, hsurfacesGet, _⟩ :=
    insertIter_of_coherent h.surfaces hextension.surfaces hsurfaces
  obtain ⟨poison, hpoisonOk, hpoisonCoherent, hpoisonSealed, hpoisonGet, _⟩ :=
    insertIter_of_coherent h.poison hextension.poison hpoison
  rw [hstatesOk, hsurfacesOk, hpoisonOk] at hextend
  cases hextend
  -- a class of the old table is not a class of the extension
  have hold : ∀ classId state, table.states.get classId = some state →
      extension.states.get classId = none ∧ extension.surfaces.get classId = none ∧
        extension.poison.get classId = none := by
    intro classId state hstate
    have hnone : extension.states.get classId = none := by
      by_contra hsome
      obtain ⟨added, hadded⟩ := ne_none_iff_exists'.mp hsome
      rw [hstatesNew classId added hadded] at hstate
      cases hstate
    refine ⟨hnone, ?_, ?_⟩
    · by_contra hsome
      obtain ⟨surface, hsurface⟩ := ne_none_iff_exists'.mp hsome
      rw [(hextension.surface classId surface hsurface).2] at hnone
      cases hnone
    · by_contra hsome
      obtain ⟨cause, hcause⟩ := ne_none_iff_exists'.mp hsome
      rw [hextension.cause classId cause hcause] at hnone
      cases hnone
  refine ⟨⟨hstatesCoherent, hsurfacesCoherent, hpoisonCoherent, ?_, ?_, ?_, ?_, ?_, ?_, ?_⟩, rfl⟩
  · rw [hsurfacesSealed, hstatesSealed, h.surfaces_sealed]
  · rw [hpoisonSealed, hstatesSealed, h.poison_sealed]
  · intro classId state hstate
    rw [hstatesGet, or_eq_some_iff] at hstate
    rcases hstate with hstate | ⟨_, hstate⟩
    · exact hextension.final classId state hstate
    · exact h.final classId state hstate
  · intro classId surface hsurface
    rw [hsurfacesGet, or_eq_some_iff] at hsurface
    rw [hstatesGet]
    rcases hsurface with hsurface | ⟨_, hsurface⟩
    · obtain ⟨howner, hstate⟩ := hextension.surface classId surface hsurface
      exact ⟨howner, by rw [hstate]; rfl⟩
    · obtain ⟨howner, hstate⟩ := h.surface classId surface hsurface
      exact ⟨howner, by rw [(hold classId _ hstate).1, hstate]; rfl⟩
  · intro classId hstate
    rw [hstatesGet, or_eq_some_iff] at hstate
    rw [hsurfacesGet]
    rcases hstate with hstate | ⟨_, hstate⟩
    · obtain ⟨surface, hsurface⟩ := hextension.published classId hstate
      exact ⟨surface, by rw [hsurface]; rfl⟩
    · obtain ⟨surface, hsurface⟩ := h.published classId hstate
      exact ⟨surface, by rw [(hold classId _ hstate).2.1, hsurface]; rfl⟩
  · intro classId cause hcause
    rw [hpoisonGet, or_eq_some_iff] at hcause
    rw [hstatesGet]
    rcases hcause with hcause | ⟨_, hcause⟩
    · rw [hextension.cause classId cause hcause]
      rfl
    · have hstate := h.cause classId cause hcause
      rw [(hold classId _ hstate).1, hstate]
      rfl
  · intro classId hstate
    rw [hstatesGet, or_eq_some_iff] at hstate
    rw [hpoisonGet]
    rcases hstate with hstate | ⟨_, hstate⟩
    · obtain ⟨cause, hcause⟩ := hextension.poisoned classId hstate
      exact ⟨cause, by rw [hcause]; rfl⟩
    · obtain ⟨cause, hcause⟩ := h.poisoned classId hstate
      exact ⟨cause, by rw [(hold classId _ hstate).2.2, hcause]; rfl⟩

theorem replacePublishedSurface_spec (h : table.Consistent) (surface : PublishedClassSurface)
    (token : Nat) :
    (table.replacePublishedSurface surface token).2.Consistent ∧
      ((table.replacePublishedSurface surface token).2 = table ∨
        (table.replacePublishedSurface surface token).2.identity = token) := by
  unfold replacePublishedSurface
  split
  · exact ⟨h, .inl rfl⟩
  · rename_i hguard
    simp only [Bool.or_eq_true, Bool.not_eq_true', not_or, Bool.not_eq_false] at hguard
    obtain ⟨⟨hstatesEnabled, hsurfacesEnabled⟩, hready⟩ := hguard
    obtain ⟨_, states, hstates, hstatesCoherent, _, hstatesSealed, _, hstatesGet⟩ :=
      insertLocal_of_coherent h.states surface.classId
        ClassConstructionState.published (.inr hstatesEnabled)
    obtain ⟨_, surfaces, hsurfaces, hsurfacesCoherent, _, hsurfacesSealed, _, hsurfacesGet⟩ :=
      insertLocal_of_coherent h.surfaces surface.classId surface
        (.inr hsurfacesEnabled)
    rw [hstates, hsurfaces]
    have hpublished : table.states.get surface.classId = some .published := by
      unfold isReady LayeredPublishedClasses.publishedClass require at hready
      cases hstate : table.states.get surface.classId with
      | none => simp [hstate] at hready
      | some state =>
        rcases h.final _ _ hstate with rfl | rfl
        · rfl
        · obtain ⟨cause, hcause⟩ := h.poisoned _ hstate
          cases cause <;> simp [hstate, hcause] at hready
    have hstatesSame : ∀ classId, states.get classId = table.states.get classId := by
      intro classId
      rw [hstatesGet]
      split
      · rename_i heq
        rw [heq, hpublished]
      · rfl
    refine ⟨⟨hstatesCoherent, hsurfacesCoherent, h.poison, ?_, ?_, ?_, ?_, ?_, ?_, ?_⟩, .inr rfl⟩
    · rw [hsurfacesSealed, hstatesSealed, h.surfaces_sealed]
    · rw [hstatesSealed, h.poison_sealed]
    · intro classId state hstate
      exact h.final classId state ((hstatesSame classId).symm.trans hstate)
    · intro classId found hfound
      rw [hsurfacesGet] at hfound
      rw [hstatesSame]
      split at hfound
      · rename_i heq
        cases hfound
        exact ⟨heq.symm, heq ▸ hpublished⟩
      · exact h.surface classId found hfound
    · intro classId hstate
      rw [hsurfacesGet]
      split
      · exact ⟨surface, rfl⟩
      · exact h.published classId ((hstatesSame classId).symm.trans hstate)
    · intro classId cause hcause
      exact (hstatesSame classId).trans (h.cause classId cause hcause)
    · intro classId hstate
      exact h.poisoned classId ((hstatesSame classId).symm.trans hstate)

end LayeredPublishedClasses

/-! ## §4 Runs -/

open LayeredPublishedClasses

/-- A consistent table with the next token, or with the entries and the token of a table that is
there. -/
def ClassTablePool.Admits (pool : ClassTablePool) (added : LayeredPublishedClasses) : Prop :=
  added.Consistent ∧ (added.identity = pool.nextToken ∨ ∃ original ∈ pool.tables,
    added.identity = original.identity ∧ original.SameEntries added)

/-- A token is used up, and at most one such table is new. -/
def ClassTablePool.Grows (pool next : ClassTablePool) : Prop :=
  next.nextToken = pool.nextToken + 1 ∧ ((∀ table ∈ next.tables, table ∈ pool.tables) ∨
    ∃ added, (∀ table ∈ next.tables, table ∈ pool.tables ∨ table = added) ∧ pool.Admits added)

/-- **One operation** adds at most one table to those that were seen. -/
theorem ClassTableOp.apply_spec {op : ClassTableOp} {pool next : ClassTablePool}
    (hpool : ∀ table ∈ pool.tables, table.Consistent) (h : op.apply pool = some next) :
    pool.Grows next := by
  -- a result is a new table; a write replaces one
  have hpush : ∀ result : Option LayeredPublishedClasses,
      (∀ added, result = some added → pool.Admits added) → pool.Grows (pool.push result) := by
    intro result hresult
    refine ⟨rfl, ?_⟩
    cases result with
    | none => exact .inl (by simp [ClassTablePool.push])
    | some added =>
      refine .inr ⟨added, ?_, hresult added rfl⟩
      simp [ClassTablePool.push]
  have hwrite : ∀ index table, pool.Admits table → pool.Grows (pool.write index table) :=
    fun index table htable =>
      ⟨rfl, .inr ⟨table, fun other hmem => mem_or_eq_of_mem_set hmem, htable⟩⟩
  have hself : ∀ table : LayeredPublishedClasses, table.SameEntries table :=
    fun _ => ⟨fun _ => rfl, fun _ => rfl, fun _ => rfl⟩
  cases op with
  | fromPublication states surfaces poison =>
    cases h
    refine hpush _ (fun added hadded => ⟨consistent_fromPublication hadded, .inl ?_⟩)
    obtain ⟨_, _, rfl⟩ := map_eq_some_iff.mp hadded
    rfl
  | empty =>
    cases h
    refine hpush _ (fun added hadded => ?_)
    cases hadded
    exact ⟨consistent_empty _, .inl rfl⟩
  | extend index extension =>
    obtain ⟨table, htable, h⟩ := bind_eq_some_iff.mp h
    obtain ⟨added, hadded, h⟩ := bind_eq_some_iff.mp h
    cases h
    refine hpush _ (fun result hresult => ?_)
    obtain ⟨hconsistent, htoken⟩ := extend_spec (hpool _ (mem_of_getElem? htable))
      (hpool _ (mem_of_getElem? hadded)) hresult
    exact ⟨hconsistent, .inl htoken⟩
  | freezeAsBase index =>
    obtain ⟨table, htable, h⟩ := bind_eq_some_iff.mp h
    cases h
    have hmem := mem_of_getElem? htable
    obtain ⟨hconsistent, hsame, htoken⟩ := freezeAsBase_spec (hpool _ hmem)
    exact hwrite _ _ ⟨hconsistent, .inr ⟨table, hmem, htoken, hsame⟩⟩
  | forkDelta index =>
    obtain ⟨table, htable, h⟩ := bind_eq_some_iff.mp h
    cases h
    have hmem := mem_of_getElem? htable
    refine hpush _ (fun fork hfork => ?_)
    obtain ⟨hconsistent, hsame, htoken⟩ := forkDelta_spec (hpool _ hmem)
      (toOption_eq_some.mp hfork)
    exact ⟨hconsistent, .inr ⟨table, hmem, htoken, hsame⟩⟩
  | forkSparseDelta index =>
    obtain ⟨table, htable, h⟩ := bind_eq_some_iff.mp h
    cases h
    refine hpush _ (fun fork hfork => ?_)
    obtain ⟨hconsistent, htoken⟩ := forkSparseDelta_spec (hpool _ (mem_of_getElem? htable))
      (toOption_eq_some.mp hfork)
    exact ⟨hconsistent, .inl htoken⟩
  | clone index =>
    obtain ⟨table, htable, h⟩ := bind_eq_some_iff.mp h
    cases h
    have hmem := mem_of_getElem? htable
    refine hpush _ (fun copy hcopy => ?_)
    cases hcopy
    exact ⟨hpool _ hmem, .inr ⟨table, hmem, rfl, hself table⟩⟩
  | replacePublishedSurface index surface =>
    obtain ⟨table, htable, h⟩ := bind_eq_some_iff.mp h
    cases h
    have hmem := mem_of_getElem? htable
    obtain ⟨hconsistent, hcase⟩ :=
      replacePublishedSurface_spec (hpool _ hmem) surface pool.nextToken
    refine hwrite _ _ ⟨hconsistent, ?_⟩
    rcases hcase with heq | htoken
    · rw [heq]
      exact .inr ⟨table, hmem, rfl, hself table⟩
    · exact .inl htoken

/-- A table that was seen before the last operation, or is there after it. -/
theorem seen_concat {ops : List ClassTableOp} {op : ClassTableOp} {next : ClassTablePool}
    (hrun : run ClassTableOp.apply (ops ++ [op]) {} = some next) {table : LayeredPublishedClasses}
    (h : Seen (ops ++ [op]) table) : Seen ops table ∨ table ∈ next.tables := by
  obtain ⟨front, back, pool, heq, hfront, hmem⟩ := h
  rcases eq_nil_or_concat back with rfl | ⟨back, last, rfl⟩
  · rw [append_nil] at heq
    subst heq
    cases hrun.symm.trans hfront
    exact .inr hmem
  · rw [concat_eq_append, ← append_assoc] at heq
    obtain ⟨rfl, _⟩ := append_inj' heq rfl
    exact .inl ⟨front, back, pool, rfl, hfront, hmem⟩

/-- In every run the tables are consistent and the tokens determine the answers. -/
theorem stamped_of_run {ops : List ClassTableOp} {pool : ClassTablePool}
    (hrun : run ClassTableOp.apply ops {} = some pool) :
    (∀ table, Seen ops table → table.Consistent) ∧
      Stamped identity publishedClass (Seen ops) pool.nextToken := by
  refine run_induction (fun events state => (∀ table, Seen events table → table.Consistent) ∧
    Stamped identity publishedClass (Seen events) state.nextToken) ?_ ?_ hrun
  · have hnone : ∀ table, ¬ Seen [] table := by
      rintro table ⟨front, back, pool, heq, hfront, hmem⟩
      obtain ⟨rfl, rfl⟩ := append_eq_nil_iff.mp heq.symm
      cases hfront
      cases hmem
    exact ⟨fun table hseen => (hnone table hseen).elim,
      stamped_empty.mono (fun table hseen => hnone table hseen) (Nat.le_refl _)⟩
  · intro events op before after hbefore ih hstep
    obtain ⟨hconsistent, hstamped⟩ := ih
    have hseen : ∀ table ∈ before.tables, Seen events table :=
      fun table hmem => ⟨events, [], before, (append_nil _).symm, hbefore, hmem⟩
    have hlast := fun table => @seen_concat events op after (run_concat_of hbefore hstep) table
    obtain ⟨htoken, hcase⟩ :=
      op.apply_spec (fun table hmem => hconsistent table (hseen table hmem)) hstep
    rcases hcase with hold | ⟨added, hnew, hadded, horigin⟩
    · have hback : ∀ table, Seen (events ++ [op]) table → Seen events table :=
        fun table h => (hlast table h).elim id (fun hmem => hseen table (hold table hmem))
      exact ⟨fun table h => hconsistent table (hback table h),
        hstamped.mono hback (by omega)⟩
    · have hback : ∀ table, Seen (events ++ [op]) table → Seen events table ∨ table = added :=
        fun table h => (hlast table h).elim .inl (fun hmem =>
          (hnew table hmem).imp_left (hseen table))
      constructor
      · intro table h
        rcases hback table h with hseen' | rfl
        · exact hconsistent table hseen'
        · exact hadded
      · rw [htoken]
        refine Stamped.mono (hstamped.insert ?_) hback (Nat.le_refl _)
        refine horigin.imp_right ?_
        rintro ⟨original, hmem, heq, hsame⟩
        exact ⟨original, hseen original hmem, heq, hsame.publishedClass⟩

/-- **Published class tables are consistent and identified by their tokens.** In every table of
every run a registered class is published or poisoned, has a surface of its own exactly when it
is published and a cause exactly when it is poisoned, and is never answered as not published.
Two tables with one token, also of different times, answer alike. -/
theorem class_tables_consistent (ops : List ClassTableOp) (pool : ClassTablePool)
    (hrun : run ClassTableOp.apply ops {} = some pool) :
    (∀ table, Seen ops table →
      (∀ classId state, table.states.get classId = some state →
        state = .published ∨ state = .poisoned) ∧
      (∀ classId, table.states.get classId = some .published ↔
        ∃ surface, table.surfaces.get classId = some surface ∧ surface.classId = classId) ∧
      (∀ classId, (table.surfaces.get classId).isSome →
        table.states.get classId = some .published) ∧
      (∀ classId, table.states.get classId = some .poisoned ↔
        ∃ cause, table.poison.get classId = some cause) ∧
      ∀ classId, table.states.get classId ≠ none →
        ∀ other state, table.publishedClass classId ≠ .exhausted (.classNotPublished other state)) ∧
    ∀ table other, Seen ops table → Seen ops other → table.identity = other.identity →
      ∀ classId, table.publishedClass classId = other.publishedClass classId := by
  obtain ⟨hconsistent, hstamped⟩ := stamped_of_run hrun
  refine ⟨fun table hseen => ?_, fun table other htable hother htoken classId =>
    congrFun (hstamped.determined table other htable hother htoken) classId⟩
  have h := hconsistent table hseen
  refine ⟨h.final, fun classId => ⟨fun hstate => ?_, ?_⟩, fun classId hsome => ?_,
    fun classId => ⟨h.poisoned classId, ?_⟩, fun classId hregistered => h.registered hregistered⟩
  · obtain ⟨surface, hsurface⟩ := h.published classId hstate
    exact ⟨surface, hsurface, (h.surface classId surface hsurface).1⟩
  · rintro ⟨surface, hsurface, _⟩
    exact (h.surface classId surface hsurface).2
  · obtain ⟨surface, hsurface⟩ := isSome_iff_exists.mp hsome
    exact (h.surface classId surface hsurface).2
  · rintro ⟨cause, hcause⟩
    exact h.cause classId cause hcause

/-! ### A base, a fork and a replaced surface -/

def sharedSurface : PublishedClassSurface := ⟨2, [], 10, 11, none⟩

def replacement : PublishedClassSurface := ⟨2, [], 20, 21, none⟩

/-- A base with one published and one poisoned class; the sparse fork replaces the surface, the
    plain fork does not. -/
def forkedTables : List ClassTableOp :=
  [.fromPublication ((∅ : FxHashMap ClassId ClassConstructionState).insert 2 .published |>.insert 7
      .poisoned) (Finmap.insert 2 sharedSurface ∅) (Finmap.insert 7 .initializer ∅),
    .freezeAsBase 0,
    .forkSparseDelta 0,
    .replacePublishedSurface 1 replacement,
    .forkDelta 0]

/-- The plain fork has the token of its base and answers like it; the sparse fork has another
token and shows the new surface. -/
theorem class_tables_consistent_fork :
    ∃ base sparse fork : LayeredPublishedClasses, Seen forkedTables base ∧
      Seen forkedTables sparse ∧ Seen forkedTables fork ∧
      base.identity = fork.identity ∧ base.identity ≠ sparse.identity ∧
      sparse.publishedClass 2 = .ready replacement ∧
      (∀ classId, base.publishedClass classId = fork.publishedClass classId) := by
  obtain ⟨pool, hrun, htables⟩ := map_eq_some_iff.mp (by decide +kernel :
    (run ClassTableOp.apply forkedTables {}).map (fun pool =>
      (pool.tables.map identity, pool.tables.map (fun table => table.publishedClass 2))) =
      some ([0, 3, 0], [.ready sharedSurface, .ready replacement, .ready sharedSurface]))
  obtain ⟨htokens, hanswers⟩ := Prod.mk.inj htables
  obtain ⟨base, rest, hbase, htoken, hrest⟩ := map_eq_cons_iff.mp htokens
  obtain ⟨sparse, rest, rfl, htoken', hrest⟩ := map_eq_cons_iff.mp hrest
  obtain ⟨fork, rest, rfl, htoken'', hrest⟩ := map_eq_cons_iff.mp hrest
  have hseen : ∀ table ∈ pool.tables, Seen forkedTables table :=
    fun table hmem => ⟨forkedTables, [], pool, (append_nil _).symm, hrun, hmem⟩
  have hsparse : sparse.publishedClass 2 = .ready replacement := by
    rw [hbase] at hanswers
    exact (cons.inj (cons.inj hanswers).2).1
  have hbaseSeen : Seen forkedTables base := hseen base (by simp [hbase])
  have hforkSeen : Seen forkedTables fork := hseen fork (by simp [hbase])
  refine ⟨base, sparse, fork, hbaseSeen, hseen sparse (by simp [hbase]), hforkSeen,
    htoken.trans htoken''.symm, by rw [htoken, htoken']; decide, hsparse, ?_⟩
  exact (class_tables_consistent forkedTables pool hrun).2 base fork hbaseSeen hforkSeen
    (htoken.trans htoken''.symm)

end Typokat.Check
