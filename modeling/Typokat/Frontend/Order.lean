import Typokat.Frontend.Modules

/-!
# Correctness of the Module Orders (`typokat-frontend/src/frontend.rs`)

The three visits are the searches of `Lib.DepthFirst`.  A visit runs over module numbers; the
search that it mirrors runs over the values of an injective naming.  With the numbers
themselves as names this gives the orders and the cycles; with the display names it gives
that the input order does not matter.

## Main Results

- `visitEach_mirrors`, `visitCycle_mirrors` : the visits are the searches
- `module_orders_correct` : the orders are complete and put targets first, the reported cycle
  is one and is reported exactly when there is one, and both depend on the names only
-/

namespace Typokat.Frontend

open Lib List

variable {α : Type} [DecidableEq α] {f : Nat → α} {count : Nat} {targets : Nat → List Nat}
  {targets' : α → List α}

/-! ## §1 The visits mirror the searches -/

/-- A naming of the modules under which a search can follow a visit. -/
structure Naming (f : Nat → α) (count : Nat) (targets : Nat → List Nat)
    (targets' : α → List α) : Prop where
  injective : ∀ i < count, ∀ j < count, f i = f j → i = j
  in_range : ∀ i < count, ∀ target ∈ targets i, target < count
  targets : ∀ i < count, targets' (f i) = (targets i).map f

/-- A visit and a search that have done the same. -/
structure Mirrors (f : Nat → α) (count : Nat) (visit : Visit) (search : Finishing α) : Prop where
  length : visit.state.length = count
  unseen : ∀ i < count, visit.state[i]? = some .unseen ↔ f i ∈ search.unseen
  order : search.order = visit.order.map f

theorem Mirrors.enter {visit : Visit} {search : Finishing α} (h : Mirrors f count visit search)
    (hnaming : Naming f count targets targets') {index : Nat} (hindex : index < count) :
    Mirrors f count (visit.enter index) (search.enter (f index)) := by
  refine ⟨by simp [Visit.enter, h.length], fun i hi => ?_, h.order⟩
  by_cases hne : i = index
  · subst hne
    simp [Visit.enter, Finishing.enter, h.length, hi]
  · have hname : f i ≠ f index := fun heq => hne (hnaming.injective i hi index hindex heq)
    simp [Visit.enter, Finishing.enter, getElem?_set_ne (Ne.symm hne), hname, h.unseen i hi]

omit [DecidableEq α] in
theorem Mirrors.leave {visit : Visit} {search : Finishing α} (h : Mirrors f count visit search)
    {index : Nat} (hindex : index < count) (hseen : f index ∉ search.unseen) :
    Mirrors f count (visit.leave index) (search.leave (f index)) := by
  refine ⟨by simp [Visit.leave, h.length], fun i hi => ?_, ?_⟩
  · by_cases hne : i = index
    · subst hne
      simp [Visit.leave, Finishing.leave, h.length, hi, hseen]
    · simp [Visit.leave, Finishing.leave, getElem?_set_ne (Ne.symm hne), h.unseen i hi]
  · simp [Visit.leave, Finishing.leave, h.order]

theorem not_mem_unseen_after {search : Finishing α} {node : α} {pending : List α} :
    node ∉ ((search.enter node).after targets' pending).unseen :=
  fun hin => Finset.notMem_erase node search.unseen
    ((depthFirst targets' pending (search.enter node)).property hin)

/-- **A visit is a depth-first search** under any injective naming. -/
theorem visitEach_mirrors (hnaming : Naming f count targets targets') (pending : List Nat)
    (visit : Visit) (search : Finishing α) (hpending : ∀ index ∈ pending, index < count)
    (h : Mirrors f count visit search) :
    Mirrors f count (visitEach targets pending visit).val
      (search.after targets' (pending.map f)) := by
  induction pending, visit using visitEach.induct targets generalizing search with
  | case1 visit =>
    rw [visitEach, map_nil, Finishing.after_nil]
    exact h
  | case2 index rest visit hstate inner ihTargets ihRest =>
    have hindex := hpending index mem_cons_self
    have hunseen : f index ∈ search.unseen := (h.unseen index hindex).mp hstate
    rw [visitEach, map_cons, Finishing.after_cons_unseen hunseen]
    split
    · rename_i hcase
      -- first the targets, then the rest
      have hinner := ihTargets (search.enter (f index)) (hnaming.in_range index hindex)
        (h.enter hnaming hindex)
      rw [← hnaming.targets index hindex] at hinner
      apply ihRest
      · exact fun other hother => hpending other (mem_cons_of_mem _ hother)
      · exact hinner.leave hindex not_mem_unseen_after
    · rename_i hcase
      exact absurd hstate hcase
  | case3 index rest visit hstate ihRest =>
    have hindex := hpending index mem_cons_self
    have hseen : f index ∉ search.unseen := fun hin =>
      hstate ((h.unseen index hindex).mpr hin)
    rw [visitEach, map_cons, Finishing.after_cons_seen hseen]
    split
    · rename_i hcase
      exact absurd hcase hstate
    · apply ihRest search _ h
      exact fun other hother => hpending other (mem_cons_of_mem _ hother)

/-- The states and the stack of a visit, and a search with the same stack. -/
structure Tracks (f : Nat → α) (count : Nat) (state : List VisitState) (stack : List Nat)
    (search : Tracking α) : Prop where
  length : state.length = count
  unseen : ∀ i < count, state[i]? = some .unseen ↔ f i ∈ search.unseen
  visiting : ∀ i < count, state[i]? = some .visiting ↔ i ∈ stack
  stack_lt : ∀ i ∈ stack, i < count
  stack : search.stack = stack.map f

section Entering

variable {state : List VisitState} {stack : List Nat} {search : Tracking α}
  (h : Tracks f count state stack search) (hnaming : Naming f count targets targets') {index : Nat}
  (hindex : index < count)
include h hnaming hindex

omit [DecidableEq α] in
theorem Tracks.mem_stack : f index ∈ search.stack ↔ index ∈ stack := by
  rw [h.stack, mem_map]
  constructor
  · intro hmem
    obtain ⟨other, hother, heq⟩ := hmem
    exact hnaming.injective other (h.stack_lt other hother) index hindex heq ▸ hother
  · exact fun hmem => ⟨index, hmem, rfl⟩

theorem Tracks.enter :
    Tracks f count (state.set index .visiting) (stack ++ [index]) (search.enter (f index)) := by
  refine ⟨by simp [h.length], fun i hi => ?_, fun i hi => ?_, ?_, by simp [Tracking.enter, h.stack]⟩
  · by_cases hne : i = index
    · subst hne
      simp [Tracking.enter, h.length, hi]
    · have hname : f i ≠ f index := fun heq => hne (hnaming.injective i hi index hindex heq)
      simp [Tracking.enter, getElem?_set_ne (Ne.symm hne), hname, h.unseen i hi]
  · by_cases hne : i = index
    · subst hne
      simp [h.length, hi]
    · simp [getElem?_set_ne (Ne.symm hne), hne, h.visiting i hi]
  · intro i hi
    rcases mem_append.mp hi with hi | hi
    · exact h.stack_lt i hi
    · rw [mem_singleton] at hi
      exact hi ▸ hindex

end Entering

omit [DecidableEq α] in
/-- After its targets a module is done, and the stack is as before. -/
theorem Tracks.leave {state : List VisitState} {stack : List Nat} {search : Tracking α}
    {index : Nat} {unseen : Finset α}
    (h : Tracks f count state (stack ++ [index]) ⟨unseen, search.stack ++ [f index]⟩)
    (hstack : search.stack = stack.map f) (hindex : index < count) (hfresh : index ∉ stack)
    (hseen : f index ∉ unseen) :
    Tracks f count (state.set index .done) stack ⟨unseen, search.stack⟩ := by
  refine ⟨by simp [h.length], fun i hi => ?_, fun i hi => ?_, ?_, hstack⟩
  · by_cases hne : i = index
    · subst hne
      simp [h.length, hi, hseen]
    · rw [getElem?_set_ne (Ne.symm hne)]
      exact h.unseen i hi
  · by_cases hne : i = index
    · subst hne
      simp [h.length, hi, hfresh]
    · rw [getElem?_set_ne (Ne.symm hne), h.visiting i hi]
      simp [hne]
  · exact fun i hi => h.stack_lt i (mem_append_left _ hi)

/-- The names from a stacked module on are the names of the search's cycle. -/
theorem map_drop_idxOf {stack : List Nat} {search : Tracking α}
    (hstack : search.stack = stack.map f) {name : α → String} {index start : Nat}
    (hinj : ∀ other ∈ stack, f other = f index → other = index)
    (hstart : stack.idxOf? index = some start) {label : Nat → String}
    (hname : ∀ i, name (f i) = label i) :
    (search.stack.dropWhile (fun other => other ≠ f index) ++ [f index]).map name =
      (stack.drop start).map label ++ [label index] := by
  rw [hstack, map_append, map_singleton, hname]
  congr 1
  clear hstack
  induction stack generalizing start with
  | nil => simp at hstart
  | cons other stack ih =>
    by_cases hne : other = index
    · subst hne
      have hzero : start = 0 := by simpa [idxOf?_cons] using hstart.symm
      subst hzero
      simp [hname]
    · have hname' : f other ≠ f index := fun heq => hne (hinj other mem_cons_self heq)
      simp only [idxOf?_cons, beq_iff_eq, hne, if_false, Option.map_eq_some_iff] at hstart
      obtain ⟨rest, hrest, hsucc⟩ := hstart
      subst hsucc
      rw [map_cons, dropWhile_cons_of_pos (by simpa using hname'), drop_succ_cons]
      exact ih (fun next hnext => hinj next (mem_cons_of_mem _ hnext)) hrest

/-- The names that a visit for a cycle reports, or its states at the end. -/
def cycleFrom (inputs : List FileInput) (targets : Nat → List Nat) (pending : List Nat)
    (state : List VisitState) (stack : List Nat) : Except (List String) (List VisitState) :=
  (visitCycle inputs targets pending state stack).map Subtype.val

variable {inputs : List FileInput} {index : Nat} {rest stack : List Nat} {state : List VisitState}

theorem cycleFrom_cons_visiting (hstate : state[index]? = some .visiting) {start : Nat}
    (hstart : stack.idxOf? index = some start) :
    cycleFrom inputs targets (index :: rest) state stack =
      .error ((stack.drop start).map (displayName inputs) ++ [displayName inputs index]) := by
  unfold cycleFrom
  rw [visitCycle]
  split <;> simp_all [Except.map]

theorem cycleFrom_cons_unseen (hstate : state[index]? = some .unseen) :
    cycleFrom inputs targets (index :: rest) state stack =
      (cycleFrom inputs targets (targets index) (state.set index .visiting)
        (stack ++ [index])).bind (fun inner =>
          cycleFrom inputs targets rest (inner.set index .done) stack) := by
  unfold cycleFrom
  rw [visitCycle]
  split
  · simp_all
  · cases visitCycle inputs targets (targets index) (state.set index .visiting)
      (stack ++ [index]) with
    | error cycle => rfl
    | ok inner =>
      simp only [Except.map, Except.bind]
      cases visitCycle inputs targets rest (inner.val.set index .done) stack with
      | error cycle => rfl
      | ok final => rfl
  · simp_all

theorem cycleFrom_cons_seen (hvisiting : state[index]? ≠ some .visiting)
    (hunseen : state[index]? ≠ some .unseen) :
    cycleFrom inputs targets (index :: rest) state stack =
      cycleFrom inputs targets rest state stack := by
  unfold cycleFrom
  rw [visitCycle]
  split <;> simp_all

/-- A visit for a cycle can be followed along its recursion. -/
theorem cycleFrom_induction (inputs : List FileInput) (targets : Nat → List Nat)
    {motive : List Nat → List VisitState → List Nat → Prop}
    (nil : ∀ state stack, motive [] state stack)
    (visiting : ∀ index rest state stack, state[index]? = some .visiting →
      motive (index :: rest) state stack)
    (unseen : ∀ index rest state stack, state[index]? = some .unseen →
      motive (targets index) (state.set index .visiting) (stack ++ [index]) →
      (∀ inner, cycleFrom inputs targets (targets index) (state.set index .visiting)
          (stack ++ [index]) = .ok inner → motive rest (inner.set index .done) stack) →
      motive (index :: rest) state stack)
    (seen : ∀ index rest state stack, state[index]? ≠ some .visiting →
      state[index]? ≠ some .unseen → motive rest state stack → motive (index :: rest) state stack)
    (pending : List Nat) (state : List VisitState) (stack : List Nat) :
    motive pending state stack := by
  induction pending, state, stack using visitCycle.induct inputs targets with
  | case1 stack state => exact nil state stack
  | case2 index rest state stack hstate start _ => exact visiting index rest state stack hstate
  | case3 index rest state stack hstate _ _ => exact visiting index rest state stack hstate
  | case4 index rest state stack hstate cycle hcycle ihTargets =>
    apply unseen index rest state stack hstate ihTargets
    intro inner hinner
    simp [cycleFrom, hcycle, Except.map] at hinner
  | case5 index rest state stack hstate inner hinner cycle hcycle ihTargets ihRest =>
    apply unseen index rest state stack hstate ihTargets
    intro other hother
    simp only [cycleFrom, hinner, Except.map, Except.ok.injEq] at hother
    exact hother ▸ ihRest
  | case6 index rest state stack hstate inner hinner final hfinal ihTargets ihRest =>
    apply unseen index rest state stack hstate ihTargets
    intro other hother
    simp only [cycleFrom, hinner, Except.map, Except.ok.injEq] at hother
    exact hother ▸ ihRest
  | case7 index rest state stack hvisiting hunseen ihRest =>
    exact seen index rest state stack hvisiting hunseen ihRest

/-- **A visit for a cycle is the search for a cycle** under any injective naming: it reports
the names of the search's cycle, or both go on. -/
theorem visitCycle_mirrors (hnaming : Naming f count targets targets') (name : α → String)
    (hname : ∀ i, name (f i) = displayName inputs i) (pending : List Nat) (state : List VisitState)
    (stack : List Nat) (search : Tracking α) (hpending : ∀ index ∈ pending, index < count)
    (h : Tracks f count state stack search) :
    (∃ path, search.cycle targets' (pending.map f) = .error path ∧
      cycleFrom inputs targets pending state stack = .error (path.map name)) ∨
    ∃ unseen final, search.cycle targets' (pending.map f) = .ok unseen ∧
      cycleFrom inputs targets pending state stack = .ok final ∧
      Tracks f count final stack ⟨unseen, search.stack⟩ := by
  induction pending, state, stack using cycleFrom_induction inputs targets
    generalizing search with
  | nil state stack =>
    right
    exact ⟨search.unseen, state,
      Tracking.cycle_nil search, by simp [cycleFrom, visitCycle, Except.map], h⟩
  | visiting index rest state stack hstate =>
    -- the module is on the stack of both
    have hindex := hpending index mem_cons_self
    have hopen : index ∈ stack := (h.visiting index hindex).mp hstate
    obtain ⟨start, hstart⟩ := Option.isSome_iff_exists.mp (isSome_idxOf?.mpr hopen)
    left
    refine ⟨search.stack.dropWhile (fun other => other ≠ f index) ++ [f index], ?_, ?_⟩
    · rw [map_cons]
      exact Tracking.cycle_cons_open ((h.mem_stack hnaming hindex).mpr hopen) _
    · rw [cycleFrom_cons_visiting hstate hstart]
      rw [map_drop_idxOf h.stack (fun other hother heq =>
        hnaming.injective other (h.stack_lt other hother) index hindex heq) hstart hname]
  | unseen index rest state stack hstate ihTargets ihRest =>
    have hindex := hpending index mem_cons_self
    have hfresh : index ∉ stack := by
      intro hopen
      rw [(h.visiting index hindex).mpr hopen] at hstate
      cases hstate
    have hopen : f index ∉ search.stack := fun hin => hfresh ((h.mem_stack hnaming hindex).mp hin)
    rw [map_cons, Tracking.cycle_cons_unseen hopen ((h.unseen index hindex).mp hstate),
      cycleFrom_cons_unseen hstate, hnaming.targets index hindex]
    rcases ihTargets (search.enter (f index)) (hnaming.in_range index hindex)
      (h.enter hnaming hindex) with ⟨path, hpath, hcycle⟩ | ⟨unseen, inner, hunseen, hinner, hmid⟩
    · left
      exact ⟨path, by rw [hpath]; rfl, by rw [hcycle]; rfl⟩
    · rw [hunseen, hinner]
      have hseen : f index ∉ unseen := by
        have hsub := Tracking.unseen_subset_of_ok hunseen
        exact fun hin => Finset.notMem_erase (f index) search.unseen (hsub hin)
      exact ihRest inner hinner ⟨unseen, search.stack⟩
        (fun other hother => hpending other (mem_cons_of_mem _ hother))
        (hmid.leave h.stack hindex hfresh hseen)
  | seen index rest state stack hvisiting hunseen ihRest =>
    have hindex := hpending index mem_cons_self
    have hopen : f index ∉ search.stack := fun hin =>
      hvisiting ((h.visiting index hindex).mpr ((h.mem_stack hnaming hindex).mp hin))
    have hseen : f index ∉ search.unseen := fun hin => hunseen ((h.unseen index hindex).mpr hin)
    rw [map_cons, Tracking.cycle_cons_done hopen hseen, cycleFrom_cons_seen hvisiting hunseen]
    exact ihRest search (fun other hother => hpending other (mem_cons_of_mem _ hother)) h

/-! ## §2 Module numbers as names -/

variable {roots : List Nat}

theorem mirrors_start (f : Nat → α) (hroots : ∀ index, index ∈ roots ↔ index < count) :
    Mirrors f count ⟨replicate count .unseen, []⟩ ⟨(roots.map f).toFinset, []⟩ := by
  refine ⟨length_replicate, fun i hi => ?_, rfl⟩
  simp only [getElem?_replicate, hi, if_true, mem_toFinset, mem_map, true_iff]
  exact ⟨i, (hroots i).mpr hi, rfl⟩

theorem tracks_start (f : Nat → α) (hroots : ∀ index, index ∈ roots ↔ index < count) :
    Tracks f count (replicate count .unseen) [] ⟨(roots.map f).toFinset, []⟩ := by
  refine ⟨length_replicate, fun i hi => ?_, fun i hi => ?_, by simp, rfl⟩
  · simp only [getElem?_replicate, hi, if_true, mem_toFinset, mem_map, true_iff]
    exact ⟨i, (hroots i).mpr hi, rfl⟩
  · simp [hi]

/-- Every module number in range names itself. -/
theorem naming_self (hrange : ∀ i < count, ∀ target ∈ targets i, target < count) :
    Naming id count targets targets :=
  ⟨fun _ _ _ _ heq => heq, hrange, fun _ _ => (map_id _).symm⟩

/-- **A visit from all modules** lists every module once, and every target of a module in
front of it or on a way back to it. -/
theorem visitEach_whole {edge : Nat → Nat → Prop}
    (htargets : ∀ owner target, target ∈ targets owner ↔ edge owner target)
    (hroots : roots.Perm (range count))
    (hrange : ∀ owner target, edge owner target → target < count) :
    (visitEach targets roots ⟨replicate count .unseen, []⟩).val.order.Perm
        (range count) ∧
      (Acyclic edge → TargetsFirst edge
        (visitEach targets roots ⟨replicate count .unseen, []⟩).val.order) := by
  have hmem : ∀ index, index ∈ roots ↔ index < count := by simp [hroots.mem_iff]
  have hmirrors := visitEach_mirrors
    (naming_self (fun i _ target htarget => hrange i target ((htargets i target).mp htarget)))
    roots _ _ (fun index hindex => (hmem index).mp hindex)
    (mirrors_start id hmem)
  have hwhole := Finishing.whole_spec htargets (hroots.nodup_iff.mpr nodup_range)
    (fun owner target hedge => (hmem target).mpr (hrange owner target hedge))
  simp only [map_id] at hmirrors
  rw [hmirrors.order, map_id] at hwhole
  exact ⟨hwhole.1.trans hroots, hwhole.2.targetsFirst⟩

/-- What a search for a cycle from all modules reports. -/
theorem cycleFrom_whole (inputs : List FileInput) {edge : Nat → Nat → Prop}
    (htargets : ∀ owner target, target ∈ targets owner ↔ edge owner target)
    (hroots : roots.Perm (range count))
    (hrange : ∀ owner target, edge owner target → owner < count ∧ target < count) :
    (∃ path, cycleFrom inputs targets roots (replicate count .unseen) [] =
      .error (path.map (displayName inputs)) ∧ CyclePath edge path) ∨
    (∃ final, cycleFrom inputs targets roots (replicate count .unseen) [] = .ok final) ∧
      Acyclic edge := by
  have hmem : ∀ index, index ∈ roots ↔ index < count := by simp [hroots.mem_iff]
  have hmirrors := visitCycle_mirrors
    (naming_self (fun i _ target htarget =>
      (hrange i target ((htargets i target).mp htarget)).2))
    (displayName inputs) (fun _ => rfl) roots _ [] _ (fun index hindex => (hmem index).mp hindex)
    (tracks_start id hmem)
  have hwhole := Tracking.whole_spec htargets
    (fun owner target hedge => (hmem owner).mpr (hrange owner target hedge).1)
  simp only [map_id] at hmirrors
  rcases hmirrors with ⟨path, hpath, hcycle⟩ | ⟨unseen, final, hunseen, hfinal, _⟩
  · rcases hwhole with ⟨path', hpath', hcyclePath⟩ | ⟨⟨unseen, hok⟩, _⟩
    · rw [hpath] at hpath'
      cases hpath'
      exact .inl ⟨path, hcycle, hcyclePath⟩
    · rw [hpath] at hok
      cases hok
  · rcases hwhole with ⟨path', hpath', _⟩ | ⟨_, hacyclic⟩
    · rw [hunseen] at hpath'
      cases hpath'
    · exact .inr ⟨⟨final, hfinal⟩, hacyclic⟩

/-! ## §3 Display names as names -/

/-- One target set for each module, and every target is a module. -/
structure EdgesInRange (count : Nat) (edges : List (Std.TreeSet Nat)) : Prop where
  length : edges.length = count
  target_lt : ∀ owner target, ModuleEdge edges owner target → target < count

/-- Some module of the first name has an edge to some module of the second. -/
def NameEdge (inputs : List FileInput) (edges : List (Std.TreeSet Nat)) (owner target : String) :
    Prop :=
  ∃ i j, ModuleEdge edges i j ∧ displayName inputs i = owner ∧ displayName inputs j = target

/-- The display names of the modules. -/
def displayNames (inputs : List FileInput) : List String :=
  inputs.map (fun input => normalizedDisplayName input.name)

theorem displayNames_eq (inputs : List FileInput) :
    displayNames inputs = (range inputs.length).map (displayName inputs) := by
  apply ext_getElem
  · simp [displayNames]
  · intro i hi _
    have hlt : i < inputs.length := by simpa [displayNames] using hi
    simp [displayNames, displayName, hlt]

theorem displayName_injective (h : (displayNames inputs).Nodup) :
    ∀ i < inputs.length, ∀ j < inputs.length,
      displayName inputs i = displayName inputs j → i = j := by
  rw [displayNames_eq] at h
  intro i hi j hj heq
  exact inj_on_of_nodup_map h (mem_range.mpr hi) (mem_range.mpr hj) heq

theorem mem_displayNames {name : String} :
    name ∈ displayNames inputs ↔ ∃ i < inputs.length, displayName inputs i = name := by
  rw [displayNames_eq]
  simp

/-- Modules of different names are sorted strictly by name. -/
theorem pairwise_map_sortByDisplayName (h : (displayNames inputs).Nodup) {modules : List Nat}
    (hnodup : modules.Nodup) (hrange : ∀ index ∈ modules, index < inputs.length) :
    ((sortByDisplayName inputs modules).map (displayName inputs)).Pairwise (· < ·) := by
  rw [pairwise_map]
  have hsorted : (sortByDisplayName inputs modules).Pairwise
      (fun left right => displayName inputs left ≤ displayName inputs right) :=
    pairwise_insertionSort _ modules
  have hdistinct : (sortByDisplayName inputs modules).Nodup :=
    (sortByDisplayName_perm inputs modules).nodup_iff.mpr hnodup
  -- equal names would be equal modules
  apply (hsorted.and hdistinct).imp_of_mem
  intro left right hleft hright hpair
  apply lt_of_le_of_ne hpair.1
  intro heq
  exact hpair.2 (displayName_injective h left (hrange left (mem_sortByDisplayName.mp hleft)) right
    (hrange right (mem_sortByDisplayName.mp hright)) heq)

/-- Two lists of names that are sorted strictly and have the same members are one list. -/
theorem eq_of_same_names {names names' : List String} (h : names.Pairwise (· < ·))
    (h' : names'.Pairwise (· < ·)) (hsame : ∀ name, name ∈ names ↔ name ∈ names') :
    names = names' := by
  have hperm : names.Perm names' :=
    (perm_ext_iff_of_nodup (h.imp ne_of_lt) (h'.imp ne_of_lt)).mpr hsame
  exact hperm.eq_of_pairwise (fun a b _ _ hab hba => absurd (hab.trans hba) (lt_irrefl a)) h h'

theorem nodup_targetsOf (edges : List (Std.TreeSet Nat)) (index : Nat) :
    (targetsOf edges index).Nodup := by
  unfold targetsOf
  cases edges[index]? with
  | none => exact nodup_nil
  | some targets => exact targets.ordered_toList.imp (fun hlt heq => by simp [heq] at hlt)

section Names

variable {edges : List (Std.TreeSet Nat)} (h : (displayNames inputs).Nodup)
  (hrange : EdgesInRange inputs.length edges)
include h hrange

/-- The targets of a module under their names, sorted. -/
theorem pairwise_stableTargets (index : Nat) :
    ((stableTargets inputs edges index).map (displayName inputs)).Pairwise (· < ·) :=
  pairwise_map_sortByDisplayName h (nodup_targetsOf edges index)
    (fun target htarget => hrange.target_lt index target (mem_targetsOf.mp htarget))

theorem mem_map_stableTargets {index : Nat} (hindex : index < inputs.length) {name : String} :
    name ∈ (stableTargets inputs edges index).map (displayName inputs) ↔
      NameEdge inputs edges (displayName inputs index) name := by
  rw [mem_map]
  constructor
  · intro hmem
    obtain ⟨target, htarget, hname⟩ := hmem
    exact ⟨index, target, mem_targetsOf.mp (mem_sortByDisplayName.mp htarget), rfl, hname⟩
  · intro hedge
    obtain ⟨owner, target, hmodule, howner, hname⟩ := hedge
    have hlt : owner < inputs.length := hrange.length ▸ hmodule.owner_lt
    have heq := displayName_injective h owner hlt index hindex howner
    subst heq
    exact ⟨target, mem_sortByDisplayName.mpr (mem_targetsOf.mpr hmodule), hname⟩

end Names

/-- The targets of a name, for the modules of a project. -/
def targetsOfName (inputs : List FileInput) (edges : List (Std.TreeSet Nat)) (name : String) :
    List String :=
  match (List.range inputs.length).find? (fun i => displayName inputs i = name) with
  | some index => (stableTargets inputs edges index).map (displayName inputs)
  | none => []

theorem targetsOfName_eq {edges : List (Std.TreeSet Nat)} (h : (displayNames inputs).Nodup)
    {index : Nat} (hindex : index < inputs.length) :
    targetsOfName inputs edges (displayName inputs index) =
      (stableTargets inputs edges index).map (displayName inputs) := by
  have hfind : (range inputs.length).find?
      (fun i => displayName inputs i = displayName inputs index) = some index := by
    cases hfound : (range inputs.length).find?
        (fun i => displayName inputs i = displayName inputs index) with
    | none =>
      have hnone := find?_eq_none.mp hfound index (mem_range.mpr hindex)
      simp at hnone
    | some other =>
      have hother := mem_range.mp (mem_of_find?_eq_some hfound)
      have hname : displayName inputs other = displayName inputs index := by
        simpa using find?_some hfound
      rw [displayName_injective h other hother index hindex hname]
  unfold targetsOfName
  rw [hfind]

/-- Two projects with the same names and the same edges between them. -/
structure SameNames (inputs inputs' : List FileInput) (edges edges' : List (Std.TreeSet Nat)) :
    Prop where
  names : ∀ name, name ∈ displayNames inputs ↔ name ∈ displayNames inputs'
  edges : ∀ owner target, NameEdge inputs edges owner target ↔ NameEdge inputs' edges' owner target

variable {inputs' : List FileInput} {edges edges' : List (Std.TreeSet Nat)}

/-- Under the display names, both projects have the target lists of the first. -/
theorem naming_displayName (h : (displayNames inputs).Nodup) (h' : (displayNames inputs').Nodup)
    (hrange : EdgesInRange inputs.length edges) (hrange' : EdgesInRange inputs'.length edges')
    (hsame : SameNames inputs inputs' edges edges') :
    Naming (displayName inputs') inputs'.length (stableTargets inputs' edges')
      (targetsOfName inputs edges) := by
  refine ⟨displayName_injective h', ?_, ?_⟩
  · intro i _ target htarget
    exact hrange'.target_lt i target (mem_targetsOf.mp (mem_sortByDisplayName.mp htarget))
  · intro i hi
    obtain ⟨j, hj, hname⟩ := mem_displayNames.mp
      ((hsame.names _).mpr (mem_displayNames.mpr ⟨i, hi, rfl⟩))
    rw [← hname, targetsOfName_eq h hj]
    apply eq_of_same_names (pairwise_stableTargets h hrange j) (pairwise_stableTargets h' hrange' i)
    intro name
    rw [mem_map_stableTargets h hrange hj, mem_map_stableTargets h' hrange' hi, hname, hsame.edges]

/-- The roots under their names are the same list. -/
theorem map_roots_eq (h : (displayNames inputs).Nodup) (h' : (displayNames inputs').Nodup)
    (hnames : ∀ name, name ∈ displayNames inputs ↔ name ∈ displayNames inputs') :
    (sortByDisplayName inputs (range inputs.length)).map (displayName inputs) =
      (sortByDisplayName inputs' (range inputs'.length)).map (displayName inputs') := by
  have hmem : ∀ {inputs : List FileInput} (name : String),
      name ∈ (sortByDisplayName inputs (range inputs.length)).map (displayName inputs) ↔
        name ∈ displayNames inputs := by
    intro inputs name
    rw [displayNames_eq]
    simp [mem_sortByDisplayName]
  apply eq_of_same_names
  · exact pairwise_map_sortByDisplayName h nodup_range (fun i hi => mem_range.mp hi)
  · exact pairwise_map_sortByDisplayName h' nodup_range (fun i hi => mem_range.mp hi)
  · intro name
    rw [hmem, hmem, hnames]

theorem mem_roots {index : Nat} :
    index ∈ sortByDisplayName inputs (range inputs.length) ↔ index < inputs.length := by
  rw [mem_sortByDisplayName, mem_range]

/-- The stable order under the names is a search over the names. -/
theorem stableDependencyOrder_names {targets' : String → List String}
    (hnaming : Naming (displayName inputs) inputs.length (stableTargets inputs edges) targets')
    {roots : List String}
    (hroots : (sortByDisplayName inputs (range inputs.length)).map (displayName inputs) =
      roots) :
    (stableDependencyOrder inputs edges).map (displayName inputs) =
      ((⟨roots.toFinset, []⟩ : Finishing String).after targets' roots).order := by
  subst hroots
  exact (visitEach_mirrors hnaming _ _ _ (fun index hindex => mem_roots.mp hindex)
    (mirrors_start _ (fun _ => mem_roots))).order.symm

/-- What a search reports. -/
def reported {ε σ : Type} : Except ε σ → Option ε
  | .error report => some report
  | .ok _ => none

theorem firstModuleCycle_eq : firstModuleCycle inputs edges =
    reported (cycleFrom inputs (stableTargets inputs edges)
      (sortByDisplayName inputs (range inputs.length))
      (replicate inputs.length .unseen) []) := by
  unfold firstModuleCycle cycleFrom
  cases visitCycle inputs (stableTargets inputs edges)
    (sortByDisplayName inputs (range inputs.length))
    (replicate inputs.length .unseen) [] <;> rfl

/-- The reported cycle is that of a search over the names. -/
theorem firstModuleCycle_names {targets' : String → List String}
    (hnaming : Naming (displayName inputs) inputs.length (stableTargets inputs edges) targets')
    {roots : List String}
    (hroots : (sortByDisplayName inputs (range inputs.length)).map (displayName inputs) =
      roots) :
    firstModuleCycle inputs edges =
      reported ((⟨roots.toFinset, []⟩ : Tracking String).cycle targets' roots) := by
  subst hroots
  rw [firstModuleCycle_eq]
  rcases visitCycle_mirrors hnaming id (fun _ => rfl) _ _ [] _
      (fun index hindex => mem_roots.mp hindex) (tracks_start (displayName inputs)
        (fun _ => mem_roots)) with ⟨path, hpath, hcycle⟩ | ⟨unseen, final, hunseen, hfinal, _⟩
  · rw [hpath, hcycle, map_id]
    rfl
  · rw [hunseen, hfinal]
    rfl

/-! ## §4 The orders and the cycle -/

/-- The edges of `dependency_order_with_reexports`. -/
def ImportEdge (imports : List (List RawImport)) (reexportEdges : List (Std.TreeSet Nat))
    (owner target : Nat) : Prop :=
  target ∈ importTargets imports reexportEdges owner

theorem dependencyOrder_spec {imports : List (List RawImport)}
    {reexportEdges : List (Std.TreeSet Nat)}
    (hrange : ∀ owner target, ImportEdge imports reexportEdges owner target →
      target < imports.length) :
    (dependencyOrderWithReexports imports reexportEdges).Perm (range imports.length) ∧
      (Acyclic (ImportEdge imports reexportEdges) →
        TargetsFirst (ImportEdge imports reexportEdges)
          (dependencyOrderWithReexports imports reexportEdges)) :=
  visitEach_whole (fun _ _ => Iff.rfl) (List.Perm.refl _) hrange

theorem mem_stableTargets {owner target : Nat} :
    target ∈ stableTargets inputs edges owner ↔ ModuleEdge edges owner target :=
  mem_sortByDisplayName.trans mem_targetsOf

theorem stableOrder_spec (hrange : EdgesInRange inputs.length edges) :
    (stableDependencyOrder inputs edges).Perm (range inputs.length) ∧
      (Acyclic (ModuleEdge edges) →
        TargetsFirst (ModuleEdge edges) (stableDependencyOrder inputs edges)) :=
  visitEach_whole (fun _ _ => mem_stableTargets) (sortByDisplayName_perm inputs _)
    hrange.target_lt

/-- A project without a cycle reports none, and a reported cycle is one. -/
theorem firstModuleCycle_spec (hrange : EdgesInRange inputs.length edges) :
    (∃ path, firstModuleCycle inputs edges = some (path.map (displayName inputs)) ∧
      CyclePath (ModuleEdge edges) path) ∨
    firstModuleCycle inputs edges = none ∧ Acyclic (ModuleEdge edges) := by
  rw [firstModuleCycle_eq]
  rcases cycleFrom_whole inputs (fun _ _ => mem_stableTargets)
      (sortByDisplayName_perm inputs _) (fun owner target hedge =>
      ⟨hrange.length ▸ hedge.owner_lt, hrange.target_lt owner target hedge⟩) with
    ⟨path, hpath, hcycle⟩ | ⟨⟨final, hfinal⟩, hacyclic⟩
  · left
    rw [hpath]
    exact ⟨path, rfl, hcycle⟩
  · right
    rw [hfinal]
    exact ⟨rfl, hacyclic⟩

/-- **The module orders are correct.** `dependency_order_with_reexports` and
`stable_dependency_order` list every module once, and after all its targets when there is no
cycle.  `first_module_cycle` reports the names of a path that closes at its first module,
repeats no other and follows edges, and reports one exactly when there is a cycle.  Modules of
different display names may be given in any order: the names of the stable order and the
reported cycle stay the same. -/
theorem module_orders_correct :
    (∀ imports reexportEdges,
      (∀ owner target, ImportEdge imports reexportEdges owner target → target < imports.length) →
      (dependencyOrderWithReexports imports reexportEdges).Perm (List.range imports.length) ∧
        (Acyclic (ImportEdge imports reexportEdges) →
          TargetsFirst (ImportEdge imports reexportEdges)
            (dependencyOrderWithReexports imports reexportEdges))) ∧
    (∀ inputs edges, EdgesInRange inputs.length edges →
      (stableDependencyOrder inputs edges).Perm (List.range inputs.length) ∧
        (Acyclic (ModuleEdge edges) →
          TargetsFirst (ModuleEdge edges) (stableDependencyOrder inputs edges)) ∧
        ((firstModuleCycle inputs edges).isSome ↔ ¬ Acyclic (ModuleEdge edges)) ∧
        ∀ names, firstModuleCycle inputs edges = some names →
          ∃ path, names = path.map (displayName inputs) ∧ CyclePath (ModuleEdge edges) path) ∧
    (∀ inputs inputs' edges edges', EdgesInRange inputs.length edges →
      EdgesInRange inputs'.length edges' → (displayNames inputs).Nodup →
      (displayNames inputs').Nodup → SameNames inputs inputs' edges edges' →
      (stableDependencyOrder inputs edges).map (displayName inputs) =
          (stableDependencyOrder inputs' edges').map (displayName inputs') ∧
        firstModuleCycle inputs edges = firstModuleCycle inputs' edges') := by
  refine ⟨fun imports reexportEdges hrange => dependencyOrder_spec hrange,
    fun inputs edges hrange => ?_, fun inputs inputs' edges edges' hrange hrange' h h' hsame => ?_⟩
  · obtain ⟨hperm, hfirst⟩ := stableOrder_spec hrange
    refine ⟨hperm, hfirst, ?_⟩
    rcases firstModuleCycle_spec hrange with ⟨path, hpath, hcycle⟩ | ⟨hnone, hacyclic⟩
    · rw [hpath]
      refine ⟨by simpa using hcycle.not_acyclic, fun names hnames => ?_⟩
      cases hnames
      exact ⟨path, rfl, hcycle⟩
    · rw [hnone]
      exact ⟨by simpa using hacyclic, fun names hnames => by cases hnames⟩
  · have hroots := map_roots_eq h h' hsame.names
    have hnaming := naming_displayName h h hrange hrange ⟨fun _ => Iff.rfl, fun _ _ => Iff.rfl⟩
    have hnaming' := naming_displayName h h' hrange hrange' hsame
    constructor
    · rw [stableDependencyOrder_names hnaming hroots, stableDependencyOrder_names hnaming' rfl]
    · rw [firstModuleCycle_names hnaming hroots, firstModuleCycle_names hnaming' rfl]

/-! ### Two modules in both orders -/

/-- `b.ts` imports `a.ts`. -/
def twoModules : List FileInput := [⟨"b.ts", ""⟩, ⟨"a.ts", ""⟩]

def twoEdges : List (Std.TreeSet Nat) := [Std.TreeSet.ofList [1], ∅]

/-- The same modules, given in the other order. -/
def twoEdgesSwapped : List (Std.TreeSet Nat) := [∅, Std.TreeSet.ofList [0]]

theorem moduleEdge_twoEdges {owner target : Nat} :
    ModuleEdge twoEdges owner target ↔ owner = 0 ∧ target = 1 := by
  rw [← mem_targetsOf]
  rcases owner with _ | _ | owner
  · rw [show targetsOf twoEdges 0 = [1] by decide +kernel]
    simp
  · rw [show targetsOf twoEdges 1 = [] by decide +kernel]
    simp
  · simp [targetsOf, twoEdges]

theorem moduleEdge_twoEdgesSwapped {owner target : Nat} :
    ModuleEdge twoEdgesSwapped owner target ↔ owner = 1 ∧ target = 0 := by
  rw [← mem_targetsOf]
  rcases owner with _ | _ | owner
  · rw [show targetsOf twoEdgesSwapped 0 = [] by decide +kernel]
    simp
  · rw [show targetsOf twoEdgesSwapped 1 = [0] by decide +kernel]
    simp
  · simp [targetsOf, twoEdgesSwapped]

/-- Both orders of the input give the same names, and the imported module comes first. -/
theorem module_orders_correct_two :
    (stableDependencyOrder twoModules twoEdges).Perm (List.range 2) ∧
      TargetsFirst (ModuleEdge twoEdges) (stableDependencyOrder twoModules twoEdges) ∧
      (stableDependencyOrder twoModules twoEdges).map (displayName twoModules) =
        (stableDependencyOrder twoModules.reverse twoEdgesSwapped).map
          (displayName twoModules.reverse) ∧
      (dependencyOrderWithReexports [[⟨"x", "x", .resolved 1⟩], []] [∅, ∅]).Perm
        (List.range 2) := by
  have hrange : EdgesInRange twoModules.length twoEdges :=
    ⟨rfl, fun owner target hedge => by simp [(moduleEdge_twoEdges.mp hedge).2, twoModules]⟩
  have hrange' : EdgesInRange twoModules.reverse.length twoEdgesSwapped :=
    ⟨rfl, fun owner target hedge => by simp [(moduleEdge_twoEdgesSwapped.mp hedge).2, twoModules]⟩
  have hacyclic : Acyclic (ModuleEdge twoEdges) := by
    intro node hcycle
    obtain ⟨next, hedge, _⟩ := Relation.TransGen.head'_iff.mp hcycle
    obtain ⟨last, _, hlast⟩ := Relation.TransGen.tail'_iff.mp hcycle
    have hzero := (moduleEdge_twoEdges.mp hedge).1
    have hone := (moduleEdge_twoEdges.mp hlast).2
    omega
  have hsame : SameNames twoModules twoModules.reverse twoEdges twoEdgesSwapped := by
    refine ⟨by simp [displayNames], fun owner target => ?_⟩
    simp [NameEdge, moduleEdge_twoEdges, moduleEdge_twoEdgesSwapped, displayName, twoModules]
  have hstable := module_orders_correct.2.1 twoModules twoEdges hrange
  refine ⟨hstable.1, hstable.2.1 hacyclic, ?_, ?_⟩
  · exact (module_orders_correct.2.2 _ _ _ _ hrange hrange' (by decide +kernel)
      (by decide +kernel) hsame).1
  · refine (module_orders_correct.1 _ _ (fun owner target hedge => ?_)).1
    rcases owner with _ | _ | owner <;>
      simp [ImportEdge, importTargets, targetsOf, RawImportSource.target?] at hedge
    subst hedge
    decide

end Typokat.Frontend
