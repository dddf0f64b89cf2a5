import Mathlib.Algebra.BigOperators.Group.Finset.Basic
import Mathlib.Algebra.Order.BigOperators.Group.Finset
import Typokat.Lib.Digraph
import Typokat.Types.Unions

/-!
# Concreteness (`check/checker/eval/extends.rs`)

Whether a type contains a type parameter decides whether a conditional over it may be
evaluated.  The test walks the child types in post-order on an explicit stack and keeps the
verdict of every type it finishes; a type that is met again while it is still open is
recorded as concrete at once, and that verdict stays.

The walk always ends.  Its answers are right in every run over types below which no cycle
leads to a type parameter, whatever was classified before.  A cycle that does is where the
early verdict is wrong: the test then calls a type concrete that contains a parameter.

## Main Results

- `isConcrete_spec` : what one call answers and leaves in the cache
- `isConcrete_exact` : runs of calls
- `isConcrete_recursive_object` : the wrong answer
-/

namespace Typokat.Types

/-- `child_types`: the children that determine a composite's concreteness. -/
def Row.childTypes : Row → List TypeId
  | .object body =>
    body.properties.map (fun property => property.ty) ++ body.stringIndex.toList
      ++ body.numberIndex.toList ++ body.callSignatures ++ body.constructSignatures
  | .function body =>
    body.params.map (fun param => param.ty) ++ body.receiver.toList ++ [body.ret]
  | .union members => members
  | .intersection members => members
  | .array element => [element]
  | .tuple body => body.elements ++ body.rest.toList.map (fun rest => rest.ty)
  | .readonly operand => [operand]
  | .conditional body => [body.check, body.extendsTy, body.trueBranch, body.falseBranch]
  -- the base's own parameters are bound by the arguments
  | .instantiation body => body.args.map (fun arg => arg.2)
  | .classInstance body => body.args
  | .mapped body => [body.keySource, body.valueTemplate] ++ body.modifiersSource.toList
  | .template body => body.holes
  | .keyof operand => [operand]
  | .deferredIndexedAccess body => [body.object, body.index]
  | _ => []

/-- The rows whose verdict does not depend on children. -/
def Row.ownVerdict : Row → Option Bool
  | .typeParam _ => some false
  | .intrinsic _ => some true
  | .literal _ => some true
  | .infer _ => some true
  -- a mapped-value placeholder is a bound variable
  | .mappedValue => some true
  | _ => none

end Typokat.Types

namespace Typokat.Check

open Types Lib Finset Interner Option Relation

/-! ## §1 The walk -/

/-- The state of the walk; `stack` has its top first, and an entry with the flag set waits for
    its children. -/
structure ConcreteWalk where
  stack : List (TypeId × Bool)
  onPath : FxHashSet TypeId
  concrete : FxHashMap TypeId Bool

/-- One round of the loop, after `(ty, expanded)` was popped off `rest`; `none` is the panic of
    an id without a row. -/
def ConcreteWalk.visit (store : Store) (walk : ConcreteWalk) (ty : TypeId) (expanded : Bool)
    (rest : List (TypeId × Bool)) : Option ConcreteWalk :=
  if ty ∈ walk.concrete then some { walk with stack := rest }
  else
    (store.row ty).map (fun row =>
      if expanded then
        { stack := rest
          onPath := walk.onPath.erase ty
          concrete := walk.concrete.insert ty
            (row.childTypes.all (fun child => (walk.concrete.lookup child).getD true)) }
      else
        match row.ownVerdict with
        | some verdict =>
          { walk with stack := rest, concrete := walk.concrete.insert ty verdict }
        | none =>
          -- a back edge counts as concrete
          if ty ∈ walk.onPath then
            { walk with stack := rest, concrete := walk.concrete.insert ty true }
          else
            let waiting := row.childTypes.filter (fun child => child ∉ walk.concrete)
            { walk with
              stack := waiting.reverse.map (fun child => (child, false)) ++ (ty, true) :: rest
              onPath := insert ty walk.onPath })

/-- The loop, with a bound on the number of rounds. -/
def ConcreteWalk.run (store : Store) : Nat → ConcreteWalk → Option ConcreteWalk
  | fuel, walk =>
    match walk.stack with
    | [] => some walk
    | (ty, expanded) :: rest =>
      match fuel with
      | 0 => none
      | fuel + 1 => (walk.visit store ty expanded rest).bind (ConcreteWalk.run store fuel)

/-- What opening a row can cost: its own second round, and a round for each child. -/
def rowRounds (store : Store) (id : TypeId) : Nat :=
  1 + ((store.row id).map (fun row => row.childTypes.length)).getD 0

/-- Enough rounds for any walk: one for the root, and every row is opened at most once. -/
def walkRounds (store : Store) : Nat :=
  1 + ∑ id ∈ Finset.range store.len, rowRounds store id

/-- `is_concrete`, with the cache it leaves. -/
def isConcrete (store : Store) (concrete : FxHashMap TypeId Bool) (ty : TypeId) :
    Option (Bool × FxHashMap TypeId Bool) :=
  match concrete.lookup ty with
  | some verdict => some (verdict, concrete)
  | none =>
    (ConcreteWalk.run store (walkRounds store) ⟨[(ty, false)], ∅, concrete⟩).map (fun walk =>
      ((walk.concrete.lookup ty).getD true, walk.concrete))

/-- A sequence of calls that share the cache, with the answer to each. -/
def isConcreteAll (store : Store) :
    List TypeId → FxHashMap TypeId Bool → Option (List Bool × FxHashMap TypeId Bool)
  | [], concrete => some ([], concrete)
  | ty :: rest, concrete => do
    let (answer, concrete) ← isConcrete store concrete ty
    let (answers, concrete) ← isConcreteAll store rest concrete
    some (answer :: answers, concrete)

/-! ## §2 What it should answer -/

section Graph

variable (store : Store)

/-- `child` is a child type of `parent`. -/
def ChildType (parent child : TypeId) : Prop :=
  ∃ row, store.row parent = some row ∧ child ∈ row.childTypes

/-- A type parameter is reachable along child types. -/
def ContainsParam (ty : TypeId) : Prop :=
  ∃ id param, Relation.ReflTransGen (ChildType store) ty id ∧
    store.row id = some (.typeParam param)

/-- No child type is a dangling id. -/
def ChildrenHaveRows : Prop :=
  ∀ parent child, ChildType store parent child → ∃ row, store.row child = some row

/-- No type on a cycle below `ty` contains a parameter. -/
def NoParamOnCycle (ty : TypeId) : Prop :=
  ∀ id, Relation.ReflTransGen (ChildType store) ty id →
    Relation.TransGen (ChildType store) id id → ¬ ContainsParam store id

/-- Every cached verdict is right. -/
def ExactVerdicts (concrete : FxHashMap TypeId Bool) : Prop :=
  ∀ id verdict, concrete.lookup id = some verdict → (verdict = true ↔ ¬ ContainsParam store id)

end Graph

section Graph

variable {store : Store}

theorem NoParamOnCycle.below {ty child : TypeId} (h : NoParamOnCycle store ty)
    (hreach : ReflTransGen (ChildType store) ty child) : NoParamOnCycle store child := by
  intro id hid hcycle
  exact h id (hreach.trans hid) hcycle

/-- A row with a verdict of its own has no children. -/
theorem childTypes_of_ownVerdict {row : Row} {verdict : Bool} (h : row.ownVerdict = some verdict) :
    row.childTypes = [] := by
  cases row <;> first
    | rfl
    | cases h

/-- The verdict of a row of its own is right. -/
theorem ownVerdict_exact {ty : TypeId} {row : Row} {verdict : Bool} (hrow : store.row ty = some row)
    (h : row.ownVerdict = some verdict) :
    verdict = true ↔ ¬ ContainsParam store ty := by
  have hself : ∀ id, ReflTransGen (ChildType store) ty id → id = ty := by
    intro id hreach
    rcases ReflTransGen.cases_head hreach with heq | ⟨child, ⟨row', hrow', hchild⟩, _⟩
    · exact heq.symm
    · rw [hrow, some.injEq] at hrow'
      rw [← hrow', childTypes_of_ownVerdict h] at hchild
      cases hchild
  have hparam : ContainsParam store ty ↔ ∃ param, row = .typeParam param := by
    constructor
    · intro ⟨id, param, hreach, hid⟩
      rw [hself id hreach, hrow, some.injEq] at hid
      exact ⟨param, hid⟩
    · intro ⟨param, heq⟩
      exact ⟨ty, param, .refl, heq ▸ hrow⟩
  rw [hparam]
  cases row <;> simp [Row.ownVerdict] at h ⊢ <;> exact h

/-- A composite contains a parameter exactly if a child does. -/
theorem containsParam_iff {ty : TypeId} {row : Row} (hrow : store.row ty = some row)
    (hown : row.ownVerdict = none) :
    ContainsParam store ty ↔ ∃ child ∈ row.childTypes, ContainsParam store child := by
  constructor
  · intro ⟨id, param, hreach, hid⟩
    rcases ReflTransGen.cases_head hreach with heq | ⟨child, ⟨row', hrow', hchild⟩, hrest⟩
    · -- a parameter has a verdict of its own
      rw [← heq, hrow, some.injEq] at hid
      rw [hid] at hown
      cases hown
    · rw [hrow, some.injEq] at hrow'
      exact ⟨child, hrow' ▸ hchild, id, param, hrest, hid⟩
  · intro ⟨child, hchild, id, param, hreach, hid⟩
    exact ⟨id, param, .head ⟨row, hrow, hchild⟩ hreach, hid⟩

end Graph

/-! ## §3 One round -/

/-- The walk between two rounds: a depth-first search whose finished types are the cached
    ones and whose cached verdicts are right. -/
structure Progress (store : Store) (root : TypeId) (walk : ConcreteWalk) (order : List TypeId) :
    Prop where
  marks : ∃ seen, MarkerStack (ChildType store) walk.stack seen order
  /-- an open type reaches what waits above it by at least one edge -/
  strict : walk.stack.Pairwise (fun above below =>
    below.2 = true → Relation.TransGen (ChildType store) below.1 above.1)
  rows : ∀ ty expanded, (ty, expanded) ∈ walk.stack → ∃ row, store.row ty = some row ∧
    (expanded = true → row.ownVerdict = none ∧ ty ∈ walk.onPath)
  onPath : ∀ ty ∈ walk.onPath, ty ∈ order ∨ (ty, true) ∈ walk.stack
  cached : ∀ ty ∈ walk.concrete, ty ∈ order ∨ (ty, true) ∈ walk.stack
  finished : ∀ ty ∈ order, ty ∈ walk.concrete
  clean : ∀ ty expanded, (ty, expanded) ∈ walk.stack → NoParamOnCycle store ty
  exact : ExactVerdicts store walk.concrete
  root_visited : root ∈ order ∨ ∃ expanded, (root, expanded) ∈ walk.stack

/-- The rounds that are left: those of the stack, and those of the rows that are not opened. -/
def ConcreteWalk.potential (store : Store) (walk : ConcreteWalk) : Nat :=
  walk.stack.length + ∑ id ∈ (Finset.range store.len).filter
    (fun id => id ∉ walk.onPath ∧ id ∉ walk.concrete), rowRounds store id

section Rounds

variable {store : Store} {root ty : TypeId} {walk : ConcreteWalk} {order : List TypeId}
  {rest : List (TypeId × Bool)}

variable {expanded : Bool}

/-- A round that opens nothing is paid by the popped entry. -/
theorem potential_lt_of_pop (after : ConcreteWalk)
    (hstack : walk.stack = (ty, expanded) :: rest) (hafter : after.stack = rest)
    (hopened : ∀ id, id ∈ walk.onPath ∨ id ∈ walk.concrete →
      id ∈ after.onPath ∨ id ∈ after.concrete) :
    after.potential store < walk.potential store := by
  unfold ConcreteWalk.potential
  rw [hstack, hafter, List.length_cons]
  have hsum : ∑ id ∈ (range store.len).filter
        (fun id => id ∉ after.onPath ∧ id ∉ after.concrete), rowRounds store id
      ≤ ∑ id ∈ (range store.len).filter
        (fun id => id ∉ walk.onPath ∧ id ∉ walk.concrete), rowRounds store id := by
    apply sum_le_sum_of_subset
    intro id hid
    rw [mem_filter] at hid ⊢
    refine ⟨hid.1, ?_, ?_⟩
    · intro hpath
      rcases hopened id (.inl hpath) with h | h
      · exact hid.2.1 h
      · exact hid.2.2 h
    · intro hcached
      rcases hopened id (.inr hcached) with h | h
      · exact hid.2.1 h
      · exact hid.2.2 h
  omega

/-- Opening a row is paid by the row. -/
theorem potential_lt_of_open {row : Row} {waiting : List TypeId}
    (hstack : walk.stack = (ty, false) :: rest) (hrow : store.row ty = some row)
    (hlt : ty < store.len) (hpath : ty ∉ walk.onPath) (hcached : ty ∉ walk.concrete)
    (hwaiting : waiting.length ≤ row.childTypes.length) :
    ConcreteWalk.potential store { walk with
      stack := waiting.map (fun child => (child, false)) ++ (ty, true) :: rest
      onPath := insert ty walk.onPath } < walk.potential store := by
  unfold ConcreteWalk.potential
  have hset : (range store.len).filter
        (fun id => id ∉ insert ty walk.onPath ∧ id ∉ walk.concrete)
      = ((range store.len).filter
        (fun id => id ∉ walk.onPath ∧ id ∉ walk.concrete)).erase ty := by
    ext id
    simp only [mem_filter, mem_erase, mem_insert, not_or]
    tauto
  have hmem : ty ∈ (range store.len).filter
      (fun id => id ∉ walk.onPath ∧ id ∉ walk.concrete) := by
    rw [mem_filter, mem_range]
    exact ⟨hlt, hpath, hcached⟩
  have hsum := add_sum_erase _ (rowRounds store) hmem
  have hrounds : rowRounds store ty = 1 + row.childTypes.length := by
    simp [rowRounds, hrow]
  dsimp only
  rw [hset, hstack, List.length_append, List.length_map, List.length_cons, List.length_cons]
  omega

/-- Entries that are popped or finished leave the rest of the stack as it was. -/
theorem Progress.strict_rest (h : Progress store root walk order)
    (hstack : walk.stack = (ty, expanded) :: rest) :
    rest.Pairwise (fun above below =>
      below.2 = true → TransGen (ChildType store) below.1 above.1) := by
  have hstrict := h.strict
  rw [hstack] at hstrict
  exact (List.pairwise_cons.mp hstrict).2

/-- An open type below the top of the stack lies on a cycle if it is the top again. -/
theorem Progress.cycle_top {other : TypeId} (h : Progress store root walk order)
    (hstack : walk.stack = (ty, expanded) :: rest) (hopen : (other, true) ∈ rest) :
    TransGen (ChildType store) other ty := by
  have hstrict := h.strict
  rw [hstack] at hstrict
  exact (List.pairwise_cons.mp hstrict).1 (other, true) hopen rfl

section Inserting

variable {concrete : FxHashMap TypeId Bool}

theorem mem_insert_cases {verdict : Bool} {id : TypeId} (h : id ∈ concrete.insert ty verdict) :
    id = ty ∨ id ∈ concrete := by
  simpa using h

/-- Adding a right verdict keeps the cache right. -/
theorem ExactVerdicts.insert (h : ExactVerdicts store concrete) {verdict : Bool}
    (hverdict : verdict = true ↔ ¬ ContainsParam store ty) :
    ExactVerdicts store (concrete.insert ty verdict) := by
  intro id found hfound
  by_cases heq : id = ty
  · subst heq
    rw [Finmap.lookup_insert, some.injEq] at hfound
    rw [← hfound]
    exact hverdict
  · rw [Finmap.lookup_insert_of_ne _ heq] at hfound
    exact h id found hfound

/-- **A popped type that is open or finished already** only leaves the stack. -/
theorem Progress.drop (h : Progress store root walk order)
    (hstack : walk.stack = (ty, false) :: rest) (hseen : ty ∈ order ∨ (ty, true) ∈ rest)
    (hgrown : ∀ id ∈ walk.concrete, id ∈ concrete)
    (hnew : ∀ id ∈ concrete, id = ty ∨ id ∈ walk.concrete) (hexact : ExactVerdicts store concrete) :
    Progress store root { walk with stack := rest, concrete } order := by
  have hmem : ∀ id, (id, true) ∈ walk.stack → (id, true) ∈ rest := by
    intro id hid
    rw [hstack] at hid
    simpa using hid
  refine ⟨?_, h.strict_rest hstack, ?_, ?_, ?_, ?_, ?_, hexact, ?_⟩
  · obtain ⟨seen, hmarks⟩ := h.marks
    rw [hstack] at hmarks
    refine ⟨seen, hmarks.popSeen ((hmarks.seen_iff ty).mpr ?_)⟩
    exact hseen.imp_right (List.mem_cons_of_mem _)
  · intro id expanded hid
    exact h.rows id expanded (hstack ▸ List.mem_cons_of_mem _ hid)
  · intro id hid
    exact (h.onPath id hid).imp_right (hmem id)
  · intro id hid
    rcases hnew id hid with rfl | hid
    · exact hseen
    · exact (h.cached id hid).imp_right (hmem id)
  · exact fun id hid => hgrown id (h.finished id hid)
  · intro id expanded hid
    exact h.clean id expanded (hstack ▸ List.mem_cons_of_mem _ hid)
  · rcases h.root_visited with hroot | ⟨expanded, hroot⟩
    · exact .inl hroot
    · rw [hstack] at hroot
      rcases List.mem_cons.mp hroot with heq | hroot
      · cases heq
        exact hseen.imp_right (fun hopen => ⟨true, hopen⟩)
      · exact .inr ⟨expanded, hroot⟩

/-- **A finished type** leaves the stack and is cached from then on. -/
theorem Progress.finish {expanded : Bool} (h : Progress store root walk order)
    (hstack : walk.stack = (ty, expanded) :: rest)
    (hmarks : ∃ seen, MarkerStack (ChildType store) ((ty, true) :: rest) seen order)
    {onPath : FxHashSet TypeId} (hpath : ∀ id, id ∈ onPath → id ∈ walk.onPath)
    (hpath' : ∀ id ∈ walk.onPath, id = ty ∨ id ∈ onPath) (hty : ty ∈ concrete)
    (hgrown : ∀ id ∈ walk.concrete, id ∈ concrete)
    (hnew : ∀ id ∈ concrete, id = ty ∨ id ∈ walk.concrete) (hexact : ExactVerdicts store concrete) :
    Progress store root ⟨rest, onPath, concrete⟩ (ty :: order) := by
  obtain ⟨seen, hmarks⟩ := hmarks
  -- the marker is the only one of the type
  have hfresh : (ty, true) ∉ rest := by
    have hmarkers := hmarks.markers
    simp only [List.filter_cons_of_pos, List.nodup_cons, List.mem_filter, and_true] at hmarkers
    exact hmarkers.1
  have hmem : ∀ id, id ∈ order ∨ (id, true) ∈ walk.stack → id ∈ ty :: order ∨ (id, true) ∈ rest := by
    intro id hid
    rw [hstack] at hid
    rcases hid with hid | hid
    · exact .inl (List.mem_cons_of_mem _ hid)
    · rcases List.mem_cons.mp hid with heq | hid
      · cases heq
        exact .inl List.mem_cons_self
      · exact .inr hid
  refine ⟨⟨seen, hmarks.popMarker⟩, h.strict_rest hstack, ?_, ?_, ?_, ?_, ?_, hexact, ?_⟩
  · intro id expanded hid
    obtain ⟨row, hrow, hopen⟩ := h.rows id expanded (hstack ▸ List.mem_cons_of_mem _ hid)
    refine ⟨row, hrow, fun hexpanded => ⟨(hopen hexpanded).1, ?_⟩⟩
    rcases hpath' id (hopen hexpanded).2 with heq | hid'
    · rw [heq, hexpanded] at hid
      exact absurd hid hfresh
    · exact hid'
  · exact fun id hid => hmem id (h.onPath id (hpath id hid))
  · intro id hid
    rcases hnew id hid with rfl | hid
    · exact .inl List.mem_cons_self
    · exact hmem id (h.cached id hid)
  · intro id hid
    rcases List.mem_cons.mp hid with rfl | hid
    · exact hty
    · exact hgrown id (h.finished id hid)
  · intro id expanded hid
    exact h.clean id expanded (hstack ▸ List.mem_cons_of_mem _ hid)
  · rcases h.root_visited with hroot | ⟨expanded, hroot⟩
    · exact .inl (List.mem_cons_of_mem _ hroot)
    · rw [hstack] at hroot
      rcases List.mem_cons.mp hroot with heq | hroot
      · cases heq
        exact .inl List.mem_cons_self
      · exact .inr ⟨expanded, hroot⟩

end Inserting

/-- **An opened type** goes back on the stack, below the children that are not cached. -/
theorem Progress.openRow (h : Progress store root walk order) (hclosed : ChildrenHaveRows store)
    (hstack : walk.stack = (ty, false) :: rest) {row : Row} (hrow : store.row ty = some row)
    (hown : row.ownVerdict = none) (hpath : ty ∉ walk.onPath) (hcached : ty ∉ walk.concrete)
    {waiting : List TypeId} (hsound : ∀ child ∈ waiting, child ∈ row.childTypes)
    (hcomplete : ∀ child ∈ row.childTypes, child ∈ walk.concrete ∨ child ∈ waiting) :
    Progress store root { walk with
      stack := waiting.map (fun child => (child, false)) ++ (ty, true) :: rest
      onPath := insert ty walk.onPath } order := by
  obtain ⟨seen, hmarks⟩ := h.marks
  have hseen : ∀ id, seen id ↔ id ∈ order ∨ (id, true) ∈ walk.stack := hmarks.seen_iff
  have hunseen : ¬ seen ty := by
    rw [hseen ty]
    intro hty
    rcases hty with hty | hty
    · exact hcached (h.finished ty hty)
    · obtain ⟨_, _, hopen⟩ := h.rows ty true hty
      exact hpath (hopen rfl).2
  have hedge : ∀ child ∈ waiting, ChildType store ty child :=
    fun child hchild => ⟨row, hrow, hsound child hchild⟩
  have hclean := h.clean ty false (hstack ▸ List.mem_cons_self)
  -- the new stack has the markers of the old one and the new marker
  have hmem : ∀ id, id ∈ order ∨ (id, true) ∈ walk.stack →
      id ∈ order ∨ (id, true) ∈ waiting.map (fun child => (child, false)) ++ (ty, true) :: rest := by
    intro id hid
    rw [hstack] at hid
    rcases hid with hid | hid
    · exact .inl hid
    · right
      rcases List.mem_cons.mp hid with heq | hid
      · cases heq
      · exact List.mem_append_right _ (List.mem_cons_of_mem _ hid)
  have hsplit : ∀ {entry : TypeId × Bool},
      entry ∈ waiting.map (fun child => (child, false)) ++ (ty, true) :: rest →
      (∃ child ∈ waiting, entry = (child, false)) ∨ entry = (ty, true) ∨ entry ∈ rest := by
    intro entry hentry
    rcases List.mem_append.mp hentry with hentry | hentry
    · obtain ⟨child, hchild, heq⟩ := List.mem_map.mp hentry
      exact .inl ⟨child, hchild, heq.symm⟩
    · exact .inr (List.mem_cons.mp hentry)
  refine ⟨⟨fun id => id = ty ∨ seen id, ?_⟩, ?_, ?_, ?_, ?_, h.finished, ?_, h.exact, ?_⟩
  · rw [hstack] at hmarks
    apply hmarks.expand hunseen (fun _ => Iff.rfl) hedge
    intro child ⟨row', hrow', hchild⟩
    rw [hrow, some.injEq] at hrow'
    rcases hcomplete child (hrow' ▸ hchild) with hin | hin
    · exact .inl (.inr ((hseen child).mpr (h.cached child hin)))
    · exact .inr hin
  · have hstrict := h.strict
    rw [hstack] at hstrict
    have hold := List.pairwise_cons.mp hstrict
    refine List.pairwise_append.mpr ⟨?_, List.pairwise_cons.mpr ⟨hold.1, hold.2⟩, ?_⟩
    · apply List.pairwise_map.mpr
      apply List.pairwise_of_forall
      intro _ _ hflag
      cases hflag
    · intro above habove below hbelow hflag
      obtain ⟨child, hchild, rfl⟩ := List.mem_map.mp habove
      rcases List.mem_cons.mp hbelow with rfl | hbelow
      · exact .single (hedge child hchild)
      · exact (hold.1 below hbelow hflag).tail (hedge child hchild)
  · intro id expanded hid
    rcases hsplit hid with ⟨child, hchild, heq⟩ | heq | hid
    · cases heq
      obtain ⟨row', hrow'⟩ := hclosed ty id (hedge id hchild)
      exact ⟨row', hrow', fun hexpanded => by cases hexpanded⟩
    · cases heq
      exact ⟨row, hrow, fun _ => ⟨hown, mem_insert_self _ _⟩⟩
    · obtain ⟨row', hrow', hopen⟩ := h.rows id expanded (hstack ▸ List.mem_cons_of_mem _ hid)
      refine ⟨row', hrow', fun hexpanded => ⟨(hopen hexpanded).1, ?_⟩⟩
      exact mem_insert_of_mem (hopen hexpanded).2
  · intro id hid
    rcases mem_insert.mp hid with rfl | hid
    · exact .inr (List.mem_append_right _ List.mem_cons_self)
    · exact hmem id (h.onPath id hid)
  · exact fun id hid => hmem id (h.cached id hid)
  · intro id expanded hid
    rcases hsplit hid with ⟨child, hchild, heq⟩ | heq | hid
    · cases heq
      exact hclean.below (.single (hedge id hchild))
    · cases heq
      exact hclean
    · exact h.clean id expanded (hstack ▸ List.mem_cons_of_mem _ hid)
  · rcases h.root_visited with hroot | ⟨expanded, hroot⟩
    · exact .inl hroot
    · right
      rw [hstack] at hroot
      rcases List.mem_cons.mp hroot with heq | hroot
      · cases heq
        exact ⟨true, List.mem_append_right _ List.mem_cons_self⟩
      · exact ⟨expanded, List.mem_append_right _ (List.mem_cons_of_mem _ hroot)⟩

/-- The verdict that a finished composite gets is right: what is not cached lies on a cycle,
    and no parameter is there. -/
theorem Progress.verdict_exact (h : Progress store root walk order)
    (hstack : walk.stack = (ty, true) :: rest) {row : Row} (hrow : store.row ty = some row)
    (hown : row.ownVerdict = none) :
    row.childTypes.all (fun child => (walk.concrete.lookup child).getD true) = true ↔
      ¬ ContainsParam store ty := by
  obtain ⟨seen, hmarks⟩ := h.marks
  rw [hstack] at hmarks
  have hclean := h.clean ty true (hstack ▸ List.mem_cons_self)
  have hchild : ∀ child ∈ row.childTypes,
      ((walk.concrete.lookup child).getD true = true ↔ ¬ ContainsParam store child) := by
    intro child hchild
    have hedge : ChildType store ty child := ⟨row, hrow, hchild⟩
    cases hlookup : walk.concrete.lookup child with
    | some verdict => exact h.exact child verdict hlookup
    | none =>
      have hnot : child ∉ walk.concrete := Finmap.lookup_eq_none.mp hlookup
      -- the child was seen and is not finished, so it is still open
      have hopen : (child, true) ∈ (ty, true) :: rest := by
        rcases hmarks.pending [] ty rest rfl child hedge with hseen | hwaits
        · rcases (hmarks.seen_iff child).mp hseen with hdone | hopen
          · exact absurd (h.finished child hdone) hnot
          · exact hopen
        · cases hwaits
      have hcycle : TransGen (ChildType store) child child := by
        rcases List.mem_cons.mp hopen with heq | hopen
        · cases heq
          exact .single hedge
        · exact (h.cycle_top hstack hopen).tail hedge
      simp [hclean child (.single hedge) hcycle]
  rw [containsParam_iff hrow hown, List.all_eq_true]
  constructor
  · intro hall ⟨child, hmem, hparam⟩
    exact (hchild child hmem).mp (hall child hmem) hparam
  · intro hnone child hmem
    apply (hchild child hmem).mpr
    intro hparam
    exact hnone ⟨child, hmem, hparam⟩

/-- **One round**: the walk goes on with right verdicts, and has fewer rounds left. -/
theorem Progress.visit (h : Progress store root walk order) (hclosed : ChildrenHaveRows store)
    (hrows : ∀ id row, store.row id = some row → id < store.len)
    (hstack : walk.stack = (ty, expanded) :: rest) :
    ∃ after order', walk.visit store ty expanded rest = some after ∧
      Progress store root after order' ∧ after.potential store < walk.potential store := by
  obtain ⟨row, hrow, hopen⟩ := h.rows ty expanded (hstack ▸ List.mem_cons_self)
  have hinsert : ∀ {verdict : Bool} {id : TypeId}, id ∈ walk.concrete.insert ty verdict →
      id = ty ∨ id ∈ walk.concrete := fun hid => mem_insert_cases hid
  have hgrown : ∀ {verdict : Bool} {id : TypeId}, id ∈ walk.concrete →
      id ∈ walk.concrete.insert ty verdict := by
    intro verdict id hid
    simp [hid]
  unfold ConcreteWalk.visit
  by_cases hcached : ty ∈ walk.concrete
  · rw [if_pos hcached]
    have hless : ConcreteWalk.potential store { walk with stack := rest } < walk.potential store :=
      potential_lt_of_pop _ hstack rfl (fun id hid => hid)
    cases expanded with
    | false =>
      have hseen : ty ∈ order ∨ (ty, true) ∈ rest := by
        have hty := h.cached ty hcached
        rw [hstack] at hty
        simpa using hty
      exact ⟨_, order, rfl, h.drop hstack hseen (fun _ hid => hid) (fun _ hid => .inr hid) h.exact,
        hless⟩
    | true =>
      exact ⟨_, ty :: order, rfl, h.finish hstack (hstack ▸ h.marks) (fun _ hid => hid)
        (fun _ hid => .inr hid) hcached (fun _ hid => hid) (fun _ hid => .inr hid) h.exact, hless⟩
  rw [if_neg hcached, hrow, map_some]
  cases expanded with
  | true =>
    obtain ⟨hown, _⟩ := hopen rfl
    rw [if_pos rfl]
    refine ⟨_, ty :: order, rfl, h.finish hstack (hstack ▸ h.marks) ?_ ?_ (by simp)
      (fun _ => hgrown) (fun _ => hinsert) (h.exact.insert (h.verdict_exact hstack hrow hown)), ?_⟩
    · exact fun id hid => mem_of_mem_erase hid
    · intro id hid
      by_cases heq : id = ty
      · exact .inl heq
      · exact .inr (mem_erase.mpr ⟨heq, hid⟩)
    · apply potential_lt_of_pop _ hstack rfl
      intro id hid
      by_cases heq : id = ty
      · right
        simp [heq]
      · exact hid.imp (fun hid => mem_erase.mpr ⟨heq, hid⟩) hgrown
  | false =>
    simp only [Bool.false_eq_true, if_false]
    cases hown : row.ownVerdict with
    | some verdict =>
      -- the type is opened and finished in one round
      have hpath : ty ∉ walk.onPath := by
        intro hpath
        rcases h.onPath ty hpath with hdone | hmarker
        · exact hcached (h.finished ty hdone)
        · obtain ⟨row', hrow', hopen'⟩ := h.rows ty true hmarker
          rw [hrow, some.injEq] at hrow'
          rw [← hrow', hown] at hopen'
          cases (hopen' rfl).1
      refine ⟨_, ty :: order, rfl, h.finish hstack ?_ (fun _ hid => hid) (fun _ hid => .inr hid)
        (by simp) (fun _ => hgrown) (fun _ => hinsert)
        (h.exact.insert (ownVerdict_exact hrow hown)), ?_⟩
      · obtain ⟨seen, hmarks⟩ := h.marks
        have hunseen : ¬ seen ty := by
          rw [hmarks.seen_iff ty]
          intro hty
          rcases hty with hty | hty
          · exact hcached (h.finished ty hty)
          · obtain ⟨row', hrow', hopen'⟩ := h.rows ty true hty
            exact hpath (hopen' rfl).2
        rw [hstack] at hmarks
        refine ⟨fun id => id = ty ∨ seen id, @MarkerStack.expand _ _ _ _ _ ty [] _ hmarks hunseen
          (fun _ => Iff.rfl) (by simp) ?_⟩
        intro child ⟨row', hrow', hchild⟩
        rw [hrow, some.injEq] at hrow'
        rw [← hrow', childTypes_of_ownVerdict hown] at hchild
        cases hchild
      · apply potential_lt_of_pop _ hstack rfl
        exact fun id hid => hid.imp_right hgrown
    | none =>
      by_cases hpath : ty ∈ walk.onPath
      · rw [if_pos hpath]
        have hmarker : (ty, true) ∈ rest := by
          rcases h.onPath ty hpath with hdone | hmarker
          · exact absurd (h.finished ty hdone) hcached
          · rw [hstack] at hmarker
            simpa using hmarker
        have hnoParam : ¬ ContainsParam store ty :=
          h.clean ty false (hstack ▸ List.mem_cons_self) ty .refl (h.cycle_top hstack hmarker)
        refine ⟨_, order, rfl, h.drop hstack (.inr hmarker) (fun _ => hgrown) (fun _ => hinsert)
          (h.exact.insert (by simp [hnoParam])), ?_⟩
        apply potential_lt_of_pop _ hstack rfl
        exact fun id hid => hid.imp_right hgrown
      · rw [if_neg hpath]
        refine ⟨_, order, rfl, h.openRow hclosed hstack hrow hown hpath hcached ?_ ?_,
          potential_lt_of_open hstack hrow (hrows ty row hrow) hpath hcached ?_⟩
        · intro child hchild
          exact (List.mem_filter.mp (List.mem_reverse.mp hchild)).1
        · intro child hchild
          by_cases hin : child ∈ walk.concrete
          · exact .inl hin
          · right
            rw [List.mem_reverse, List.mem_filter]
            exact ⟨hchild, by simp [hin]⟩
        · rw [List.length_reverse]
          exact List.length_filter_le _ _

end Rounds

/-! ## §4 Calls -/

section Calls

variable {store : Store} {root : TypeId}

/-- **The walk ends**, with every stacked type finished. -/
theorem Progress.run (hclosed : ChildrenHaveRows store)
    (hrows : ∀ id row, store.row id = some row → id < store.len) {fuel : Nat} {walk : ConcreteWalk}
    {order : List TypeId} (h : Progress store root walk order)
    (hfuel : walk.potential store ≤ fuel) :
    ∃ after order', ConcreteWalk.run store fuel walk = some after ∧ after.stack = [] ∧
      Progress store root after order' := by
  induction fuel generalizing walk order with
  | zero =>
    -- a stacked entry would need a round
    have hstack : walk.stack = [] := by
      apply List.eq_nil_of_length_eq_zero
      unfold ConcreteWalk.potential at hfuel
      omega
    refine ⟨walk, order, ?_, hstack, h⟩
    unfold ConcreteWalk.run
    rw [hstack]
  | succ fuel ih =>
    cases hstack : walk.stack with
    | nil =>
      refine ⟨walk, order, ?_, hstack, h⟩
      unfold ConcreteWalk.run
      rw [hstack]
    | cons entry rest =>
      obtain ⟨ty, expanded⟩ := entry
      obtain ⟨next, order', hvisit, hnext, hless⟩ := h.visit hclosed hrows hstack
      obtain ⟨after, order'', hrun, hnil, hafter⟩ := ih hnext (by omega)
      refine ⟨after, order'', ?_, hnil, hafter⟩
      unfold ConcreteWalk.run
      rw [hstack]
      simp only [hvisit, bind_some]
      exact hrun

/-- The cache between two calls: it holds the types of a finished search, with right verdicts. -/
def SettledVerdicts (store : Store) (concrete : FxHashMap TypeId Bool) : Prop :=
  ∃ seen order, MarkerStack (ChildType store) [] seen order ∧ (∀ id, id ∈ concrete ↔ id ∈ order) ∧
    ExactVerdicts store concrete

theorem settledVerdicts_empty : SettledVerdicts store ∅ := by
  refine ⟨fun _ => False, [], MarkerStack.empty, ?_, ?_⟩
  · intro id
    simp [Finmap.notMem_empty]
  · intro id verdict hlookup
    simp at hlookup

/-- **One call** answers right and leaves right verdicts. -/
theorem isConcrete_spec (hclosed : ChildrenHaveRows store)
    (hrows : ∀ id row, store.row id = some row → id < store.len)
    {concrete : FxHashMap TypeId Bool} (h : SettledVerdicts store concrete) {ty : TypeId} {row : Row}
    (hrow : store.row ty = some row) (hclean : NoParamOnCycle store ty) :
    ∃ answer concrete', isConcrete store concrete ty = some (answer, concrete') ∧
      SettledVerdicts store concrete' ∧ (answer = true ↔ ¬ ContainsParam store ty) := by
  obtain ⟨seen, order, hmarks, hcached, hexact⟩ := h
  unfold isConcrete
  cases hlookup : concrete.lookup ty with
  | some verdict =>
    exact ⟨verdict, concrete, rfl, ⟨seen, order, hmarks, hcached, hexact⟩, hexact ty verdict hlookup⟩
  | none =>
    have hstart : Progress store ty ⟨[(ty, false)], ∅, concrete⟩ order := by
      refine ⟨⟨seen, hmarks.start ty⟩, List.pairwise_singleton _ _, ?_, ?_, ?_, ?_, ?_, hexact, ?_⟩
      · intro id expanded hid
        simp only [List.mem_singleton, Prod.mk.injEq] at hid
        obtain ⟨rfl, rfl⟩ := hid
        exact ⟨row, hrow, fun hexpanded => by cases hexpanded⟩
      · intro id hid
        simp at hid
      · exact fun id hid => .inl ((hcached id).mp hid)
      · exact fun id hid => (hcached id).mpr hid
      · intro id expanded hid
        simp only [List.mem_singleton, Prod.mk.injEq] at hid
        rw [hid.1]
        exact hclean
      · exact .inr ⟨false, List.mem_singleton.mpr rfl⟩
    have hbound : ConcreteWalk.potential store ⟨[(ty, false)], ∅, concrete⟩ ≤ walkRounds store := by
      unfold ConcreteWalk.potential walkRounds
      simp only [List.length_singleton]
      apply Nat.add_le_add_left
      exact sum_le_sum_of_subset (filter_subset _ _)
    obtain ⟨after, order', hrun, hnil, hafter⟩ := hstart.run hclosed hrows hbound
    obtain ⟨seen', hmarks'⟩ := hafter.marks
    rw [hnil] at hmarks'
    -- the root is finished, so it is cached
    have hroot : ty ∈ after.concrete := by
      rcases hafter.root_visited with hdone | ⟨_, hwaits⟩
      · exact hafter.finished ty hdone
      · rw [hnil] at hwaits
        cases hwaits
    obtain ⟨verdict, hverdict⟩ := Finmap.mem_iff.mp hroot
    refine ⟨verdict, after.concrete, ?_, ⟨seen', order', hmarks', ?_, hafter.exact⟩,
      hafter.exact ty verdict hverdict⟩
    · simp [hrun, hverdict]
    · intro id
      constructor
      · intro hid
        rcases hafter.cached id hid with hdone | hwaits
        · exact hdone
        · rw [hnil] at hwaits
          cases hwaits
      · exact hafter.finished id

theorem isConcreteAll_spec (hclosed : ChildrenHaveRows store)
    (hrows : ∀ id row, store.row id = some row → id < store.len) {calls : List TypeId}
    (hcalls : ∀ ty ∈ calls, (∃ row, store.row ty = some row) ∧ NoParamOnCycle store ty) :
    ∀ {concrete : FxHashMap TypeId Bool}, SettledVerdicts store concrete →
      ∃ answers concrete', isConcreteAll store calls concrete = some (answers, concrete') ∧
        List.Forall₂ (fun ty answer => answer = true ↔ ¬ ContainsParam store ty) calls answers := by
  induction calls with
  | nil =>
    intro concrete _
    exact ⟨[], concrete, rfl, .nil⟩
  | cons ty rest ih =>
    intro concrete h
    obtain ⟨⟨row, hrow⟩, hclean⟩ := hcalls ty List.mem_cons_self
    obtain ⟨answer, concrete', hcall, hsettled, hanswer⟩ :=
      isConcrete_spec hclosed hrows h hrow hclean
    obtain ⟨answers, concrete'', hrest, hanswers⟩ :=
      ih (fun other hother => hcalls other (List.mem_cons_of_mem _ hother)) hsettled
    exact ⟨answer :: answers, concrete'', by simp [isConcreteAll, hcall, hrest],
      .cons hanswer hanswers⟩

end Calls

/-- **Runs of calls are exact below which no cycle holds a parameter**: each call of a run
    that starts with an empty cache answers whether a type parameter is reachable, whatever was
    asked before, if this holds of every type asked for. -/
theorem isConcrete_exact {structuralHash : StructuralKey → Nat} {σ : Interner}
    (hσ : σ.Reachable structuralHash) (hclosed : ChildrenHaveRows σ.store) {calls : List TypeId}
    (hcalls : ∀ ty ∈ calls, (∃ row, σ.store.row ty = some row) ∧ NoParamOnCycle σ.store ty) :
    ∃ answers concrete, isConcreteAll σ.store calls ∅ = some (answers, concrete) ∧
      List.Forall₂ (fun ty answer => answer = true ↔ ¬ ContainsParam σ.store ty) calls answers :=
  isConcreteAll_spec hclosed (fun _ _ hrow => hσ.consed.wellFormed.lt_of_row hrow) hcalls
    settledVerdicts_empty

/-- The children in `R = { next: R; value: string }` (20) and `{ list: R; value: T }` (21). -/
def listChildren (id : TypeId) : List TypeId :=
  if id = 20 then [20, 9] else if id = 21 then [20, 19] else []

/-- A store whose only edges are those of the two objects, and whose only parameter is 19. -/
def ListRows (store : Store) : Prop :=
  store.len = 22 ∧ ∀ id ∈ List.range 22,
    (store.row id).map (fun row => (row.childTypes, decide (row.tag = .typeParam)))
      = some (listChildren id, decide (id = 19))

instance (store : Store) : Decidable (ListRows store) := by
  unfold ListRows
  infer_instance

/-- The object with the parameter is not concrete and the recursive one below it is, also when
    the first is asked for again. -/
theorem isConcrete_exact_list :
    ∃ σ : Interner, ∃ concrete, σ.Reachable (fun _ => 0) ∧ ListRows σ.store ∧
      isConcreteAll σ.store [21, 20, 21] ∅ = some ([false, true, false], concrete) ∧
      List.Forall₂ (fun ty answer => answer = true ↔ ¬ ContainsParam σ.store ty)
        [21, 20, 21] [false, true, false] := by
  obtain ⟨reached, hrun, hlist, hcall⟩ := exists_of_run
    (r := runHistory (fun _ => 0) 0 [.internTypeParam 0 "T", .reserveObject,
      .fillObject 20 { properties := [{ key := .string "next", ty := 20 },
        { key := .string "value", ty := 9 }] },
      .internObject { properties := [{ key := .string "list", ty := 20 },
        { key := .string "value", ty := 19 }] }] (withIntrinsics (fun _ => 0)))
    (P := fun reached => ListRows reached.2.store ∧
      (isConcreteAll reached.2.store [21, 20, 21] ∅).map (fun calls => calls.1)
        = some [false, true, false]) (by decide +kernel)
  have hreach : reached.2.Reachable (fun _ => 0) := ⟨0, _, reached.1, hrun⟩
  generalize reached.2 = σ at hreach hlist hcall
  obtain ⟨hlen, hrows⟩ := id hlist
  have hrow : ∀ {id : Nat} {row}, σ.store.row id = some row →
      row.childTypes = listChildren id ∧ (row.tag = .typeParam ↔ id = 19) := by
    intro id row hid
    have hlt : id < 22 := hlen ▸ hreach.consed.wellFormed.lt_of_row hid
    have := hrows id (List.mem_range.mpr hlt)
    rw [hid] at this
    simpa using this
  have hsome : ∀ id : Nat, id < 22 → ∃ row, σ.store.row id = some row :=
    fun id hid => hreach.consed.wellFormed.row_isSome (hlen ▸ hid)
  -- the edges of the store are those of the two objects
  have hedge : ∀ {parent child}, ChildType σ.store parent child → child ∈ listChildren parent := by
    intro parent child ⟨row, hparent, hchild⟩
    rwa [(hrow hparent).1] at hchild
  have hcases : ∀ {parent child : Nat}, ChildType σ.store parent child →
      parent = 20 ∧ (child = 20 ∨ child = 9) ∨ parent = 21 ∧ (child = 20 ∨ child = 19) := by
    intro parent child hchild
    have := hedge hchild
    unfold listChildren at this
    split at this
    · left
      simp_all
    · split at this <;> simp_all
  have hclosed : ChildrenHaveRows σ.store := by
    intro parent child hchild
    have := hcases hchild
    exact hsome child (by omega)
  -- the recursive object only reaches itself and `string`
  have hbelow : ∀ {id : Nat}, ReflTransGen (ChildType σ.store) 20 id → id = 20 ∨ id = 9 := by
    intro id hpath
    induction hpath with
    | refl => exact .inl rfl
    | tail _ hstep ih =>
      have := hcases hstep
      omega
  have hclean : ∀ ty, NoParamOnCycle σ.store ty := by
    intro ty id _ hcycle ⟨leaf, param, hpath, hleaf⟩
    -- nothing leads to the other object, so the cycle is that of the recursive one
    obtain ⟨_, hfirst, _⟩ := TransGen.head'_iff.mp hcycle
    obtain ⟨_, _, hlast⟩ := TransGen.tail'_iff.mp hcycle
    have hout := hcases hfirst
    have hin := hcases hlast
    have hid : id = 20 := by grind
    have hparam := (hrow hleaf).2.mp rfl
    have := hbelow (hid ▸ hpath)
    omega
  have hcalls : ∀ ty ∈ [21, 20, 21], (∃ row, σ.store.row ty = some row) ∧
      NoParamOnCycle σ.store ty := by
    intro ty hty
    refine ⟨hsome ty ?_, hclean ty⟩
    simp at hty
    grind
  obtain ⟨answers, concrete, hanswers, hexact⟩ := isConcrete_exact hreach hclosed hcalls
  rw [hanswers, map_some, some.injEq] at hcall
  dsimp only at hcall
  subst hcall
  exact ⟨σ, concrete, hreach, hlist, hanswers, hexact⟩

/-- `R = { next: R; value: T }` is called concrete although it contains `T`. -/
theorem isConcrete_recursive_object :
    ∃ σ : Interner, ∃ ty concrete, σ.Reachable (fun _ => 0) ∧
      isConcrete σ.store ∅ ty = some (true, concrete) ∧ ContainsParam σ.store ty := by
  obtain ⟨reached, hrun, hcall, hchildren, hparam⟩ := exists_of_run
    (r := runHistory (fun _ => 0) 0 [.internTypeParam 0 "T", .reserveObject,
      .fillObject 20 { properties := [{ key := .string "next", ty := 20 },
        { key := .string "value", ty := 19 }] }] (withIntrinsics (fun _ => 0)))
    (P := fun reached => (isConcrete reached.2.store ∅ 20).map (fun call => call.1) = some true ∧
      (reached.2.store.row 20).map Row.childTypes = some [20, 19] ∧
      reached.2.store.row 19 = some (.typeParam ⟨0, "T"⟩)) (by decide +kernel)
  obtain ⟨⟨answer, concrete⟩, hcall, rfl⟩ := map_eq_some_iff.mp hcall
  obtain ⟨row, hrow, hchildren⟩ := map_eq_some_iff.mp hchildren
  refine ⟨reached.2, 20, concrete, ⟨0, _, reached.1, hrun⟩, hcall, 19, _,
    .single ⟨row, hrow, ?_⟩, hparam⟩
  rw [hchildren]
  simp

end Typokat.Check
