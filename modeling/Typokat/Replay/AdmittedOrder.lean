import Typokat.Replay.AdmittedTables

/-!
# The Order of Accepted Components (`checker/replay_index.rs`)

The last check of the components replays the priority order with a heap and counters.
Together with the other checks it leaves one list of components for a graph.

## Main Results

- `admitReadyOrder_ok`, `admitReadyOrder_succeeds` : the heap accepts exactly the canonical order
- `dependencyFirst_of_admitted` : accepted components are in dependency order
-/

namespace Typokat.Replay

open Check Lib List Relation

/-! ## §1 The heap -/

section Heap

variable {sccs : List ReplayScc} {rows : List (Nat ×ₗ Nat)} {tables : ReverseSccTables}

/-- How many components from `position` on a component waits for. -/
def waiting (rows : List (Nat ×ₗ Nat)) (position component : Nat) : Nat :=
  rows.countP (fun row => (ofLex row).2 = component ∧ position ≤ (ofLex row).1)

theorem waiting_eq_zero {position component : Nat} :
    waiting rows position component = 0 ↔
      ∀ row ∈ rows, (ofLex row).2 = component → (ofLex row).1 < position := by
  simp [waiting, countP_eq_zero]

theorem waiting_succ (hnodup : rows.Nodup) (position component : Nat) :
    waiting rows position component = waiting rows (position + 1) component +
      if toLex (position, component) ∈ rows then 1 else 0 := by
  have hcount : waiting rows position component =
      waiting rows (position + 1) component + rows.count (toLex (position, component)) := by
    unfold waiting
    clear hnodup
    induction rows with
    | nil => rfl
    | cons row rows ih =>
      have hrow : row = toLex (position, component) ↔
          (ofLex row).1 = position ∧ (ofLex row).2 = component := by
        rw [← ofLex_inj (b := toLex (position, component)), Prod.ext_iff]
        rfl
      rw [countP_cons, countP_cons, count_cons, ih]
      by_cases hsame : (ofLex row).2 = component
      · rcases Nat.lt_trichotomy (ofLex row).1 position with hlt | heq | hgt
        · have hne : ¬ row = toLex (position, component) := fun h => by
            have := (hrow.mp h).1
            omega
          simp [hne, Nat.not_le.mpr hlt, Nat.not_le.mpr (Nat.lt_succ_of_lt hlt)]
        · have heqrow := hrow.mpr ⟨heq, hsame⟩
          simp [hsame, heq, heqrow]
          omega
        · have hne : ¬ row = toLex (position, component) := fun h => by
            have := (hrow.mp h).1
            omega
          have hle : position ≤ (ofLex row).1 := by omega
          have hle' : position + 1 ≤ (ofLex row).1 := by omega
          simp [hsame, hne, hle, hle']
          omega
      · have hne : ¬ row = toLex (position, component) := fun h => hsame (hrow.mp h).2
        simp [hsame, hne]
  rw [hcount, List.Nodup.count hnodup]

/-- The heap before the component at `position` is taken. -/
structure HeapAt (sccs : List ReplayScc) (rows : List (Nat ×ₗ Nat)) (position : Nat)
    (heap : ReadyHeap) : Prop where
  counts : ∀ component < sccs.length,
    heap.counts.getD component 0 = waiting rows position component
  ready : ∀ key component, toLex (key, component) ∈ heap.ready ↔
    position ≤ component ∧ ((memberLists sccs).getD component []).head? = some key ∧
      waiting rows position component = 0

/-- One dependent: its count drops by one, and at zero it becomes ready. -/
theorem release_spec (sccs : List ReplayScc) (heap : ReadyHeap) (dependent : Nat) :
    (∀ component, (heap.release sccs dependent).counts.getD component 0 =
      heap.counts.getD component 0 - if component = dependent then 1 else 0) ∧
    ∀ key component, toLex (key, component) ∈ (heap.release sccs dependent).ready ↔
      toLex (key, component) ∈ heap.ready ∨ (component = dependent ∧
        heap.counts.getD dependent 0 - 1 = 0 ∧
        ((memberLists sccs).getD component []).head? = some key) := by
  have hcounts : ∀ component, (heap.counts.modify dependent (· - 1)).getD component 0 =
      heap.counts.getD component 0 - if component = dependent then 1 else 0 := by
    intro component
    rw [getD_eq_getElem?_getD, getD_eq_getElem?_getD, getElem?_modify]
    by_cases heq : component = dependent
    · subst heq
      cases heap.counts[component]? <;> simp
    · have hne : dependent ≠ component := Ne.symm heq
      simp [heq, hne]
  have hself := hcounts dependent
  rw [if_pos rfl] at hself
  unfold ReadyHeap.release
  dsimp only
  rw [hself]
  by_cases hzero : heap.counts.getD dependent 0 - 1 = 0
  · rw [if_pos hzero]
    refine ⟨hcounts, fun key component => ?_⟩
    rw [ReadyHeap.push, mem_insertReady]
    refine or_congr Iff.rfl ⟨?_, ?_⟩
    · rintro ⟨rfl, hhead⟩
      exact ⟨rfl, hzero, hhead⟩
    · rintro ⟨rfl, _, hhead⟩
      exact ⟨rfl, hhead⟩
  · rw [if_neg hzero]
    exact ⟨hcounts, fun key component =>
      ⟨.inl, fun h => h.elim id (fun h => absurd h.2.1 hzero)⟩⟩

/-- All dependents of a component that was taken. -/
theorem foldl_release (sccs : List ReplayScc) {dependents : List Nat} (hnodup : dependents.Nodup)
    (heap : ReadyHeap)
    (hpos : ∀ dependent ∈ dependents, 0 < heap.counts.getD dependent 0) :
    (∀ component, (dependents.foldl (ReadyHeap.release sccs) heap).counts.getD component 0 =
      heap.counts.getD component 0 - if component ∈ dependents then 1 else 0) ∧
    ∀ key component, toLex (key, component) ∈
        (dependents.foldl (ReadyHeap.release sccs) heap).ready ↔
      toLex (key, component) ∈ heap.ready ∨ (component ∈ dependents ∧
        heap.counts.getD component 0 = 1 ∧
        ((memberLists sccs).getD component []).head? = some key) := by
  induction dependents generalizing heap with
  | nil => simp
  | cons dependent dependents ih =>
    obtain ⟨hnew, hnodup⟩ := nodup_cons.mp hnodup
    obtain ⟨hcounts, hready⟩ := release_spec sccs heap dependent
    have hother : ∀ component ∈ dependents,
        (heap.release sccs dependent).counts.getD component 0 = heap.counts.getD component 0 := by
      intro component hin
      have hne : component ≠ dependent := by
        rintro rfl
        exact hnew hin
      rw [hcounts, if_neg hne, Nat.sub_zero]
    obtain ⟨hrestCounts, hrestReady⟩ := ih hnodup (heap.release sccs dependent)
      (fun component hin => by
        rw [hother component hin]
        exact hpos component (mem_cons_of_mem _ hin))
    have hfirst := hpos dependent mem_cons_self
    rw [foldl_cons]
    refine ⟨fun component => ?_, fun key component => ?_⟩
    · rw [hrestCounts, hcounts]
      by_cases heq : component = dependent
      · subst heq
        simp [hnew]
      · simp [heq]
    · rw [hrestReady, hready, or_assoc]
      refine or_congr Iff.rfl ⟨?_, ?_⟩
      · rintro (⟨rfl, hzero, hhead⟩ | ⟨hin, hone, hhead⟩)
        · exact ⟨mem_cons_self, by omega, hhead⟩
        · rw [hother component hin] at hone
          exact ⟨mem_cons_of_mem _ hin, hone, hhead⟩
      · rintro ⟨hin, hone, hhead⟩
        rcases mem_cons.mp hin with rfl | hin
        · exact .inl ⟨rfl, by omega, hhead⟩
        · refine .inr ⟨hin, ?_, hhead⟩
          rw [hother component hin]
          exact hone

/-- Rows lead from a component to a later one. -/
structure ForwardRows (rows : List (Nat ×ₗ Nat)) (components : Nat) : Prop where
  sorted : rows.Pairwise (· < ·)
  forward : ∀ row ∈ rows, (ofLex row).1 < (ofLex row).2
  bound : ∀ row ∈ rows, (ofLex row).2 < components

theorem ForwardRows.nodup {components : Nat} (h : ForwardRows rows components) : rows.Nodup :=
  h.sorted.imp ne_of_lt

theorem mem_consumers {components : Nat} (htables : ListsConsumers rows components tables)
    {position component : Nat} (hposition : position < components) :
    component ∈ tables.consumers position ↔ toLex (position, component) ∈ rows := by
  rw [htables.consumers position hposition, mem_map]
  constructor
  · rintro ⟨row, hrow, rfl⟩
    obtain ⟨hrow, heq⟩ := mem_filter.mp hrow
    rw [← of_decide_eq_true heq]
    exact hrow
  · exact fun hrow => ⟨_, mem_filter.mpr ⟨hrow, by simp⟩, rfl⟩

theorem pairwise_consumers {components : Nat} (htables : ListsConsumers rows components tables)
    (hrows : ForwardRows rows components) {position : Nat} (hposition : position < components) :
    (tables.consumers position).Pairwise (· < ·) := by
  rw [htables.consumers position hposition, pairwise_map, pairwise_filter]
  refine hrows.sorted.imp (fun {first second} hlt hfirst hsecond => ?_)
  rw [Prod.Lex.lt_iff] at hlt
  have heq := of_decide_eq_true hfirst
  have heq' := of_decide_eq_true hsecond
  rcases hlt with hlt | hlt
  · omega
  · exact hlt.2

/-- The heap hands out the component at `position` iff no other one goes first. -/
def GoesNext (sccs : List ReplayScc) (rows : List (Nat ×ₗ Nat)) (position : Nat) : Prop :=
  ∀ component, position < component → component < sccs.length →
    waiting rows position component = 0 → StartsBefore (memberLists sccs) position component

section Taking

variable {position : Nat} {heap : ReadyHeap} (h : HeapAt sccs rows position heap)
  (htables : ListsConsumers rows sccs.length tables) (hrows : ForwardRows rows sccs.length)
include h htables hrows

/-- Taking a component moves the heap on. -/
theorem HeapAt.erase (hposition : position < sccs.length) {key : ReplayOwner}
    (hkey : ((memberLists sccs).getD position []).head? = some key) :
    HeapAt sccs rows (position + 1) ((tables.consumers position).foldl (ReadyHeap.release sccs)
      { heap with ready := heap.ready.erase (toLex (key, position)) }) := by
  have hmem : ∀ component, component ∈ tables.consumers position ↔
      toLex (position, component) ∈ rows := fun component => mem_consumers htables hposition
  have hlater : ∀ component, toLex (position, component) ∈ rows →
      position < component ∧ component < sccs.length :=
    fun component hin => ⟨hrows.forward _ hin, hrows.bound _ hin⟩
  have hwaiting := waiting_succ hrows.nodup position
  obtain ⟨hcounts, hready⟩ := foldl_release sccs
    ((pairwise_consumers htables hrows hposition).imp ne_of_lt)
    { heap with ready := heap.ready.erase (toLex (key, position)) } (fun dependent hin => by
      have hrow := (hmem dependent).mp hin
      rw [h.counts dependent (hlater dependent hrow).2, hwaiting, if_pos hrow]
      exact Nat.succ_pos _)
  refine ⟨fun component hcomponent => ?_, fun first component => ?_⟩
  · rw [hcounts, h.counts component hcomponent, hwaiting]
    simp only [hmem]
    omega
  · rw [hready, hmem, mem_erase_iff, h.ready]
    constructor
    · -- it was ready before, or its last dependency is released now
      rintro (⟨hne, hle, hhead, hzero⟩ | ⟨hrow, hone, hhead⟩)
      · refine ⟨?_, hhead, ?_⟩
        · rcases Nat.lt_or_ge position component with hlt | hge
          · exact hlt
          · obtain rfl : component = position := by omega
            rw [hkey, Option.some.injEq] at hhead
            rw [hhead] at hne
            exact absurd rfl hne
        · have := hwaiting component
          omega
      · obtain ⟨hlt, hbound⟩ := hlater component hrow
        rw [h.counts component hbound] at hone
        have hstep := hwaiting component
        rw [if_pos hrow] at hstep
        exact ⟨hlt, hhead, by omega⟩
    · rintro ⟨hle, hhead, hzero⟩
      have hstep := hwaiting component
      by_cases hrow : toLex (position, component) ∈ rows
      · rw [if_pos hrow] at hstep
        refine .inr ⟨hrow, ?_, hhead⟩
        rw [h.counts component (hlater component hrow).2]
        omega
      · rw [if_neg hrow] at hstep
        refine .inl ⟨fun heq => ?_, by omega, hhead, by omega⟩
        have := congrArg (fun pair => (ofLex pair).2) heq
        simp only [ofLex_toLex] at this
        omega

/-- One turn succeeds iff the component at `position` goes next. -/
theorem take_eq_ok (hnonempty : ∀ component ∈ sccs, component.owners ≠ [])
    (hposition : position < sccs.length) :
    (∀ next, heap.take sccs tables position = .ok next →
      GoesNext sccs rows position ∧ HeapAt sccs rows (position + 1) next) ∧
    (GoesNext sccs rows position → ∃ next, heap.take sccs tables position = .ok next) := by
  obtain ⟨key, hkey⟩ : ∃ key, ((memberLists sccs).getD position []).head? = some key := by
    rw [getD_eq_getElem?_getD, getElem?_map, getElem?_eq_getElem hposition]
    obtain ⟨key, rest, heq⟩ :=
      exists_cons_of_ne_nil (hnonempty _ (getElem_mem hposition))
    refine ⟨key, ?_⟩
    rw [Option.map_some, Option.getD_some, heq]
    rfl
  have hself : toLex (key, position) ∈ heap.ready := by
    refine (h.ready key position).mpr ⟨Nat.le_refl _, hkey, waiting_eq_zero.mpr ?_⟩
    rintro row hrow rfl
    exact hrows.forward row hrow
  refine ⟨fun next hnext => ?_, fun hgoes => ?_⟩
  · unfold ReadyHeap.take at hnext
    split at hnext
    · cases hnext
    · rename_i entry hentry
      split at hnext
      · cases hnext
      · rename_i heq
        cases hnext
        obtain ⟨hin, hleast⟩ := head?_toList_spec hentry
        have hentry' : entry = toLex (key, position) := by
          obtain ⟨first, second⟩ := entry
          obtain rfl : second = position := not_not.mp heq
          have hfirst := ((h.ready first second).mp hin).2.1
          rw [hkey, Option.some.injEq] at hfirst
          rw [hfirst]
          rfl
        rw [hentry'] at hleast ⊢
        refine ⟨?_, h.erase htables hrows hposition hkey⟩
        intro component hlt hbound hzero first hfirst second hsecond
        rw [hkey, Option.mem_some_iff] at hfirst
        rw [← hfirst]
        have hle := hleast _ ((h.ready second component).mpr ⟨hlt.le, hsecond, hzero⟩)
        exact Prod.Lex.monotone_fst _ _ hle
  · unfold ReadyHeap.take
    cases hentry : heap.ready.toList.head? with
    | none => exact absurd hself (not_mem_of_head?_toList hentry _)
    | some entry =>
      obtain ⟨hin, hleast⟩ := head?_toList_spec hentry
      have heq : (ofLex entry).2 = position := by
        obtain ⟨first, second⟩ := entry
        obtain ⟨hle, hhead, hzero⟩ := (h.ready first second).mp hin
        change second = position
        -- a later component that is ready would start before the least entry
        by_contra hne
        have hlt : position < second := by omega
        have hbound := lt_of_head?_eq_some hhead
        rw [length_map] at hbound
        have hstarts := hgoes second hlt hbound hzero key hkey first hhead
        have hback := hleast _ hself
        rcases Prod.Lex.le_iff.mp hback with hback | ⟨_, hback⟩
        · exact absurd hback (not_lt.mpr hstarts)
        · exact absurd (show second ≤ position from hback) (by omega)
      dsimp only
      rw [if_neg (not_not.mpr heq)]
      exact ⟨_, rfl⟩

end Taking

/-- The counters and the heap at the start. -/
def heapStart (sccs : List ReplayScc) (tables : ReverseSccTables) : ReadyHeap :=
  let counts := (List.range sccs.length).map (fun component => tables.edges.count component)
  ((List.range sccs.length).filter (fun component => counts.getD component 0 = 0)).foldl
    (ReadyHeap.push sccs) ⟨counts, ∅⟩

theorem foldl_push (sccs : List ReplayScc) (components : List Nat) (heap : ReadyHeap) :
    (components.foldl (ReadyHeap.push sccs) heap).counts = heap.counts ∧
      ∀ key component, toLex (key, component) ∈
          (components.foldl (ReadyHeap.push sccs) heap).ready ↔
        toLex (key, component) ∈ heap.ready ∨ (component ∈ components ∧
          ((memberLists sccs).getD component []).head? = some key) := by
  induction components generalizing heap with
  | nil => simp
  | cons first components ih =>
    obtain ⟨hcounts, hready⟩ := ih (heap.push sccs first)
    rw [foldl_cons]
    refine ⟨hcounts, fun key component => ?_⟩
    rw [hready, ReadyHeap.push, mem_insertReady, or_assoc, mem_cons]
    refine or_congr Iff.rfl ⟨?_, ?_⟩
    · rintro (⟨rfl, hhead⟩ | ⟨hin, hhead⟩)
      · exact ⟨.inl rfl, hhead⟩
      · exact ⟨.inr hin, hhead⟩
    · rintro ⟨rfl | hin, hhead⟩
      · exact .inl ⟨rfl, hhead⟩
      · exact .inr ⟨hin, hhead⟩

theorem count_edges (htables : ListsConsumers rows sccs.length tables) (component : Nat) :
    tables.edges.count component = waiting rows 0 component := by
  rw [htables.edges, count, countP_map, waiting]
  refine countP_congr (fun row _ => ?_)
  simp

theorem heapAt_start (htables : ListsConsumers rows sccs.length tables) :
    HeapAt sccs rows 0 (heapStart sccs tables) := by
  have hcounts : ∀ component < sccs.length,
      ((range sccs.length).map (fun component => tables.edges.count component)).getD
        component 0 = waiting rows 0 component := by
    intro component hcomponent
    rw [getD_eq_getElem?_getD, getElem?_map, getElem?_range hcomponent]
    exact count_edges htables component
  obtain ⟨hsame, hready⟩ := foldl_push sccs ((range sccs.length).filter (fun component =>
    ((range sccs.length).map (fun component => tables.edges.count component)).getD
      component 0 = 0))
    ⟨(range sccs.length).map (fun component => tables.edges.count component), ∅⟩
  refine ⟨fun component hcomponent => ?_, fun key component => ?_⟩
  · rw [heapStart, hsame]
    exact hcounts component hcomponent
  · rw [heapStart, hready, mem_filter, mem_range, decide_eq_true_eq]
    constructor
    · rintro (hempty | ⟨⟨hbound, hzero⟩, hhead⟩)
      · exact absurd hempty Std.TreeSet.not_mem_emptyc
      · rw [hcounts component hbound] at hzero
        exact ⟨Nat.zero_le _, hhead, hzero⟩
    · rintro ⟨_, hhead, hzero⟩
      have hbound := lt_of_head?_eq_some hhead
      rw [length_map] at hbound
      rw [← hcounts component hbound] at hzero
      exact .inr ⟨⟨hbound, hzero⟩, hhead⟩

theorem range_split {count position : Nat} {front back : List Nat}
    (h : List.range count = front ++ position :: back) :
    position = front.length ∧ front.length < count := by
  have hget : (List.range count)[front.length]? = some position := by
    rw [h, List.getElem?_append_right (Nat.le_refl _), Nat.sub_self]
    rfl
  have hlt := (List.getElem?_eq_some_iff.mp hget).1
  rw [List.length_range] at hlt
  rw [getElem?_range hlt] at hget
  exact ⟨(Option.some.inj hget).symm, hlt⟩

section Admitting

variable (htables : ListsConsumers rows sccs.length tables) (hrows : ForwardRows rows sccs.length)
  (hnonempty : ∀ component ∈ sccs, component.owners ≠ [])
include htables hrows hnonempty

/-- **Accepted orders** hand out the components one by one. -/
theorem admitReadyOrder_ok (h : admitReadyOrder sccs tables = .ok ()) :
    ∀ position < sccs.length, GoesNext sccs rows position := by
  obtain ⟨_, h⟩ := rejectIf_bind_eq_ok.mp h
  obtain ⟨heap, hfold, _⟩ := bind_eq_ok.mp h
  have hinv := foldlM_ok (fun front heap => HeapAt sccs rows front.length heap ∧
    ∀ position < front.length, GoesNext sccs rows position) hfold []
    ⟨heapAt_start htables, by simp⟩ (by
    rintro front position back heap next hsplit ⟨hat, hbefore⟩ htake
    obtain ⟨rfl, hlt⟩ := range_split hsplit
    rw [nil_append] at hat hbefore ⊢
    obtain ⟨hgoes, hnext⟩ := (take_eq_ok hat htables hrows hnonempty hlt).1 next htake
    rw [length_append, length_singleton]
    refine ⟨hnext, fun position hposition => ?_⟩
    rcases Nat.lt_succ_iff_lt_or_eq.mp hposition with hlt | rfl
    · exact hbefore position hlt
    · exact hgoes)
  rw [nil_append, length_range] at hinv
  exact hinv.2

/-- **The canonical order is accepted.** -/
theorem admitReadyOrder_succeeds (hsize : rows.length < 2 ^ 64)
    (h : ∀ position < sccs.length, GoesNext sccs rows position) :
    admitReadyOrder sccs tables = .ok () := by
  obtain ⟨heap, hfold, hat⟩ := foldlM_succeeds (f := ReadyHeap.take sccs tables)
    (fun front heap => HeapAt sccs rows front.length heap) (range sccs.length) []
    (heapAt_start htables) (by
      intro front position back heap hsplit hat
      obtain ⟨rfl, hlt⟩ := range_split hsplit
      rw [nil_append] at hat ⊢
      obtain ⟨hok, hsucceeds⟩ := take_eq_ok hat htables hrows hnonempty hlt
      obtain ⟨next, hnext⟩ := hsucceeds (h _ hlt)
      refine ⟨next, hnext, ?_⟩
      rw [length_append, length_singleton]
      exact (hok next hnext).2)
  rw [nil_append, length_range] at hat
  have hempty : heap.ready.toList = [] := by
    rw [← head?_eq_none_iff, Option.eq_none_iff_forall_ne_some]
    intro entry hentry
    obtain ⟨hin, _⟩ := head?_toList_spec hentry
    obtain ⟨hle, hhead, _⟩ := (hat.ready (ofLex entry).1 (ofLex entry).2).mp hin
    have hbound := lt_of_head?_eq_some hhead
    rw [length_map] at hbound
    omega
  have hcounts : ¬ ∃ count ∈ (range sccs.length).map
      (fun component => tables.edges.count component), 2 ^ 64 ≤ count := by
    rintro ⟨count, hcount, hle⟩
    obtain ⟨component, _, rfl⟩ := mem_map.mp hcount
    have hle' : tables.edges.count component ≤ rows.length := by
      rw [← length_map (fun row : Nat ×ₗ Nat => (ofLex row).2), ← htables.edges]
      exact count_le_length
    omega
  rw [admitReadyOrder, rejectIf_pass hcounts, ok_bind]
  change (do
    let heap ← (range sccs.length).foldlM (ReadyHeap.take sccs tables) (heapStart sccs tables)
    rejectIf (heap.ready.toList ≠ []) ReplayIndexAdmissionError.invalidSccPartition) = _
  rw [hfold, ok_bind]
  exact rejectIf_pass (not_not.mpr hempty)

end Admitting

end Heap

/-! ## §2 Components of the graph -/

section Graph

variable {partition : List ReplayOwner} {sccs : List ReplayScc} {tables : SccTables}
  {edges : List ReplayReverseEdge}

section Parts

variable (h : SccPartition partition sccs tables) {owner : ReplayOwner}
include h

/-- Every owner lies in the component that the table names. -/
theorem SccPartition.exists_component (howner : owner ∈ partition) :
    ∃ component, sccs[sccOf partition tables.ownerToScc owner]? = some component ∧
      owner ∈ component.owners := by
  obtain ⟨members, hmembers, hin⟩ := mem_flatten.mp ((h.mem_iff owner).mpr howner)
  obtain ⟨component, hcomponent, rfl⟩ := mem_map.mp hmembers
  obtain ⟨index, hindex⟩ := mem_iff_getElem?.mp hcomponent
  refine ⟨component, ?_, hin⟩
  rw [h.scc index component hindex owner hin]
  exact hindex

theorem SccPartition.sccOf_lt (howner : owner ∈ partition) :
    sccOf partition tables.ownerToScc owner < sccs.length := by
  obtain ⟨component, hcomponent, _⟩ := h.exists_component howner
  exact (List.getElem?_eq_some_iff.mp hcomponent).1

/-- Owners of a component are those that the table sends to it. -/
theorem SccPartition.mem_owners_iff {index : Nat} {members : List ReplayOwner}
    (hindex : (memberLists sccs)[index]? = some members) :
    owner ∈ members ↔ owner ∈ partition ∧ sccOf partition tables.ownerToScc owner = index := by
  rw [getElem?_map, Option.map_eq_some_iff] at hindex
  obtain ⟨component, hcomponent, rfl⟩ := hindex
  constructor
  · intro howner
    refine ⟨(h.mem_iff owner).mp (mem_flatten.mpr ⟨component.owners, ?_, howner⟩),
      h.scc index component hcomponent owner howner⟩
    exact mem_map_of_mem (mem_of_getElem? hcomponent)
  · rintro ⟨howner, rfl⟩
    obtain ⟨other, hother, hin⟩ := h.exists_component howner
    rw [hcomponent, Option.some.injEq] at hother
    rw [hother]
    exact hin

end Parts

theorem getElem?_of_split {A : Type} {rows done rest : List A} {row : A}
    (h : rows = done ++ row :: rest) : rows[done.length]? = some row := by
  rw [h, getElem?_append_right (Nat.le_refl _), Nat.sub_self]
  rfl

/-- The owners of the first components. -/
theorem SccPartition.mem_done_iff (h : SccPartition partition sccs tables)
    {done rest : List (List ReplayOwner)} (hsplit : memberLists sccs = done ++ rest)
    {owner : ReplayOwner} (howner : owner ∈ partition) :
    owner ∈ done.flatten ↔ sccOf partition tables.ownerToScc owner < done.length := by
  constructor
  · intro hin
    obtain ⟨members, hmembers, hin⟩ := List.mem_flatten.mp hin
    obtain ⟨index, hindex⟩ := List.mem_iff_getElem?.mp hmembers
    have hlt := (List.getElem?_eq_some_iff.mp hindex).1
    have hwhole : (done ++ rest)[index]? = done[index]? := List.getElem?_append_left hlt
    rw [← hwhole, ← hsplit] at hindex
    rw [((h.mem_owners_iff hindex).mp hin).2]
    exact hlt
  · intro hlt
    obtain ⟨component, hcomponent, hin⟩ := h.exists_component howner
    have hget : (memberLists sccs)[sccOf partition tables.ownerToScc owner]? =
        some component.owners := by
      rw [getElem?_map, hcomponent]
      rfl
    rw [hsplit, getElem?_append_left hlt] at hget
    exact mem_flatten.mpr ⟨_, mem_of_getElem? hget, hin⟩

variable {scc : ReplayOwner → Nat}

theorem mem_componentEdges {dependency consumer : Nat} :
    toLex (dependency, consumer) ∈ componentEdges scc edges ↔
      dependency ≠ consumer ∧ ∃ owner target, DependsOn edges owner target ∧
        scc target = dependency ∧ scc owner = consumer := by
  rw [componentEdges, mem_sortDedup, mem_map]
  constructor
  · rintro ⟨⟨target, owner⟩, hedge, heq⟩
    obtain ⟨hedge, hne⟩ := mem_filter.mp hedge
    obtain ⟨rfl, rfl⟩ := Prod.mk.inj (toLex.injective heq)
    exact ⟨of_decide_eq_true hne, owner, target, hedge, rfl, rfl⟩
  · rintro ⟨hne, owner, target, hedge, rfl, rfl⟩
    exact ⟨⟨target, owner⟩, mem_filter.mpr ⟨hedge, decide_eq_true hne⟩, rfl⟩

theorem mem_innerEdges {dependency consumer : ReplayOwner} :
    DependsOn (innerEdges scc edges) consumer dependency ↔
      DependsOn edges consumer dependency ∧ scc dependency = scc consumer := by
  rw [DependsOn, innerEdges, mem_filter, decide_eq_true_eq]
  rfl

/-- The edges of an index: over the partition, and never to a later component. -/
structure EdgesForward (partition : List ReplayOwner) (scc : ReplayOwner → Nat)
    (edges : List ReplayReverseEdge) : Prop where
  consumer_mem : ∀ consumer dependency, DependsOn edges consumer dependency → consumer ∈ partition
  dependency_mem : ∀ consumer dependency, DependsOn edges consumer dependency →
    dependency ∈ partition
  forward : ∀ consumer dependency, DependsOn edges consumer dependency →
    scc dependency ≤ scc consumer

theorem forwardRows_componentEdges (h : SccPartition partition sccs tables)
    (hedges : EdgesForward partition (sccOf partition tables.ownerToScc) edges) :
    ForwardRows (componentEdges (sccOf partition tables.ownerToScc) edges) sccs.length := by
  have hrow : ∀ row ∈ componentEdges (sccOf partition tables.ownerToScc) edges,
      (ofLex row).1 < (ofLex row).2 ∧ (ofLex row).2 < sccs.length := by
    rintro ⟨dependency, consumer⟩ hrow
    obtain ⟨hne, owner, target, hedge, rfl, rfl⟩ := mem_componentEdges.mp hrow
    have hle := hedges.forward owner target hedge
    exact ⟨lt_of_le_of_ne hle hne, h.sccOf_lt (hedges.consumer_mem owner target hedge)⟩
  exact ⟨pairwise_sortDedup _, fun row hin => (hrow row hin).1, fun row hin => (hrow row hin).2⟩

/-- What `admit_connected` says about one component. -/
def Connected (edges : List ReplayReverseEdge) (component : ReplayScc) : Prop :=
  1 < component.owners.length → ∀ first ∈ component.owners.head?,
    (∀ owner, Relation.ReflTransGen (DependsOn edges) first owner ↔ owner ∈ component.owners) ∧
    ∀ owner, Relation.ReflTransGen (Function.swap (DependsOn edges)) first owner ↔
      owner ∈ component.owners

theorem mem_reachesComponent_map (inner : List ReplayReverseEdge)
    (row : ReplayReverseEdge → ReplayOwner × ReplayOwner)
    (relation : ReplayOwner → ReplayOwner → Prop)
    (hrow : ∀ owner target, (∃ edge ∈ inner, row edge = (owner, target)) ↔ relation owner target)
    (first owner : ReplayOwner) :
    owner ∈ reachesComponent (inner.map row) [first] ∅ ↔
      ReflTransGen relation first owner := by
  rw [mem_reachesComponent]
  have hsame : (fun owner target => (owner, target) ∈ inner.map row) = relation := by
    funext owner target
    rw [mem_map, eq_iff_iff]
    exact hrow owner target
  rw [hsame]

theorem admitConnected_eq_ok {inner : List ReplayReverseEdge} :
    admitConnected inner sccs = .ok () ↔ ∀ component ∈ sccs, Connected inner component := by
  have hforward := mem_reachesComponent_map inner (fun edge => (edge.consumer, edge.dependency))
    (DependsOn inner) (by
      refine fun owner target => ⟨?_, fun hedge => ⟨_, hedge, rfl⟩⟩
      rintro ⟨edge, hedge, heq⟩
      obtain ⟨rfl, rfl⟩ := Prod.mk.inj heq
      exact hedge)
  have hreverse := mem_reachesComponent_map inner (fun edge => (edge.dependency, edge.consumer))
    (Function.swap (DependsOn inner)) (by
      refine fun owner target => ⟨?_, fun hedge => ⟨_, hedge, rfl⟩⟩
      rintro ⟨edge, hedge, heq⟩
      obtain ⟨rfl, rfl⟩ := Prod.mk.inj heq
      exact hedge)
  rw [admitConnected, rejectIf_eq_ok]
  simp only [not_exists, not_and, not_or, ne_eq, not_not, Finset.ext_iff, hforward, hreverse,
    mem_toFinset]
  rfl

variable {owner target : ReplayOwner}

/-- Along the recorded dependencies the component never gets later. -/
theorem EdgesForward.reach (h : EdgesForward partition scc edges)
    (hpath : ReflTransGen (DependsOn edges) owner target) :
    scc target ≤ scc owner := by
  induction hpath with
  | refl => exact Nat.le_refl _
  | tail _ hedge ih => exact (h.forward _ _ hedge).trans ih

/-- Owners of a connected component reach each other. -/
theorem mutual_of_connected {component : ReplayScc} (h : Connected (innerEdges scc edges) component)
    {owner other : ReplayOwner} (howner : owner ∈ component.owners)
    (hother : other ∈ component.owners) :
    Mutual (DependsOn edges) owner other := by
  have hinner : ∀ {first second}, ReflTransGen (DependsOn (innerEdges scc edges)) first
      second → ReflTransGen (DependsOn edges) first second := fun hpath =>
    ReflTransGen.mono (fun _ _ hedge => (mem_innerEdges.mp hedge).1) _ _ hpath
  by_cases hlong : 1 < component.owners.length
  · obtain ⟨first, rest, heq⟩ :=
      exists_cons_of_ne_nil (ne_nil_of_mem howner)
    obtain ⟨hforward, hback⟩ := h hlong first (by rw [heq]; rfl)
    have hfrom : ∀ other ∈ component.owners,
        ReflTransGen (DependsOn edges) first other := fun other hin =>
      hinner ((hforward other).mpr hin)
    have hto : ∀ other ∈ component.owners,
        ReflTransGen (DependsOn edges) other first := fun other hin =>
      hinner (reflTransGen_swap.mp ((hback other).mpr hin))
    exact ⟨(hto owner howner).trans (hfrom other hother),
      (hto other hother).trans (hfrom owner howner)⟩
  · obtain ⟨first, hfirst⟩ : ∃ first, component.owners = [first] := by
      refine length_eq_one_iff.mp ?_
      have hpos := length_pos_of_mem howner
      omega
    rw [hfirst, mem_singleton] at howner hother
    rw [howner, hother]
    exact Mutual.refl first

/-- **Accepted components are the components of the graph, in dependency order.** -/
theorem dependencyFirst_of_admitted (h : SccPartition partition sccs tables)
    (hedges : EdgesForward partition (sccOf partition tables.ownerToScc) edges)
    (hconnected : ∀ component ∈ sccs,
      Connected (innerEdges (sccOf partition tables.ownerToScc) edges) component)
    (hnext : ∀ position < sccs.length, GoesNext sccs
      (componentEdges (sccOf partition tables.ownerToScc) edges) position) :
    DependencyFirst (DependsOn edges) (· ∈ partition) (memberLists sccs) := by
  have hvalid : ∀ members ∈ memberLists sccs, members ≠ [] ∧ members.Pairwise (· < ·) := by
    intro members hmembers
    obtain ⟨component, hcomponent, rfl⟩ := mem_map.mp hmembers
    obtain ⟨index, hindex⟩ := mem_iff_getElem?.mp hcomponent
    exact ⟨(h.valid index component hindex).nonempty, (h.valid index component hindex).sorted⟩
  refine ⟨⟨h.mem_iff, h.nodup, fun members hin => (hvalid members hin).1, ?_⟩,
    fun members hin => (hvalid members hin).2, ?_, ?_⟩
  · intro members hmembers owner howner other
    obtain ⟨index, hindex⟩ := mem_iff_getElem?.mp hmembers
    obtain ⟨component, hcomponent, rfl⟩ := mem_map.mp hmembers
    obtain ⟨hin, hscc⟩ := (h.mem_owners_iff hindex).mp howner
    constructor
    · intro hother
      exact ⟨((h.mem_owners_iff hindex).mp hother).1,
        mutual_of_connected (hconnected component hcomponent) howner hother⟩
    · rintro ⟨hother, hmutual⟩
      refine (h.mem_owners_iff hindex).mpr ⟨hother, ?_⟩
      have hle := hedges.reach hmutual.1
      have hge := hedges.reach hmutual.2
      omega
  · intro done members rest hsplit owner howner target hedge
    have hscc := ((h.mem_owners_iff (getElem?_of_split hsplit)).mp howner).2
    have htarget := hedges.dependency_mem owner target hedge
    rcases Nat.lt_or_eq_of_le (hedges.forward owner target hedge) with hlt | heq
    · exact .inr ((h.mem_done_iff hsplit htarget).mpr (hscc ▸ hlt))
    · exact .inl ((h.mem_owners_iff (getElem?_of_split hsplit)).mpr ⟨htarget, heq.trans hscc⟩)
  · intro done members rest hsplit other hother hready first hfirst second hsecond
    obtain ⟨offset, hoffset⟩ := mem_iff_getElem?.mp hother
    have hindex : (memberLists sccs)[done.length + 1 + offset]? = some other := by
      rw [hsplit, getElem?_append_right (by omega),
        show done.length + 1 + offset - done.length = offset + 1 by omega, List.getElem?_cons_succ]
      exact hoffset
    have hbound := (List.getElem?_eq_some_iff.mp hindex).1
    rw [List.length_map] at hbound
    -- every component that the other one needs is done
    have hwaiting : waiting (componentEdges (sccOf partition tables.ownerToScc) edges)
        done.length (done.length + 1 + offset) = 0 := by
      rw [waiting_eq_zero]
      rintro ⟨dependency, consumer⟩ hrow hconsumer
      obtain ⟨hne, owner, target, hedge, rfl, hscc⟩ := mem_componentEdges.mp hrow
      have hsame : consumer = done.length + 1 + offset := hconsumer
      rw [hsame] at hne hscc
      have htarget := hedges.dependency_mem owner target hedge
      have howner := (h.mem_owners_iff hindex).mpr ⟨hedges.consumer_mem owner target hedge, hscc⟩
      rcases hready owner howner target hedge with hin | hin
      · exact absurd ((h.mem_owners_iff hindex).mp hin).2 hne
      · exact (h.mem_done_iff hsplit htarget).mp hin
    refine hnext done.length (by omega) (done.length + 1 + offset) (by omega) hbound hwaiting
      first ?_ second ?_
    · rw [getD_eq_getElem?_getD, getElem?_of_split hsplit]
      exact hfirst
    · rw [getD_eq_getElem?_getD, hindex]
      exact hsecond

/-- A path between owners of one component stays in it. -/
theorem EdgesForward.inner (h : EdgesForward partition scc edges)
    (hpath : ReflTransGen (DependsOn edges) owner target) (hsame : scc owner ≤ scc target) :
    ReflTransGen (DependsOn (innerEdges scc edges)) owner target := by
  induction hpath using ReflTransGen.head_induction_on with
  | refl => exact .refl
  | head hedge hrest ih =>
    have hle := h.forward _ _ hedge
    have hrestle := h.reach hrest
    exact .head (mem_innerEdges.mpr ⟨hedge, by omega⟩) (ih (by omega))

/-- Inner edges stay in a component. -/
theorem EdgesForward.scc_eq_of_inner (h : EdgesForward partition scc edges)
    (hpath : ReflTransGen (DependsOn (innerEdges scc edges)) owner target) :
    scc target = scc owner ∧ (owner ∈ partition ↔ target ∈ partition) := by
  induction hpath with
  | refl => exact ⟨rfl, Iff.rfl⟩
  | tail _ hedge ih =>
    obtain ⟨hedge, hscc⟩ := mem_innerEdges.mp hedge
    exact ⟨hscc.trans ih.1, ih.2.trans
      ⟨fun _ => h.dependency_mem _ _ hedge, fun _ => h.consumer_mem _ _ hedge⟩⟩

theorem edgesForward_of_dependencyFirst (h : SccPartition partition sccs tables)
    (hmem : ∀ consumer dependency, DependsOn edges consumer dependency →
      consumer ∈ partition ∧ dependency ∈ partition)
    (hfirst : DependencyFirst (DependsOn edges) (· ∈ partition) (memberLists sccs)) :
    EdgesForward partition (sccOf partition tables.ownerToScc) edges := by
  refine ⟨fun consumer dependency hedge => (hmem consumer dependency hedge).1,
    fun consumer dependency hedge => (hmem consumer dependency hedge).2, ?_⟩
  intro consumer dependency hedge
  obtain ⟨hconsumer, hdependency⟩ := hmem consumer dependency hedge
  obtain ⟨component, hcomponent, hin⟩ := h.exists_component hconsumer
  have hget : (memberLists sccs)[sccOf partition tables.ownerToScc consumer]? =
      some component.owners := by
    rw [List.getElem?_map, hcomponent]
    rfl
  obtain ⟨hlt, heq⟩ := List.getElem?_eq_some_iff.mp hget
  have hsplit := (List.take_append_drop (sccOf partition tables.ownerToScc consumer)
    (memberLists sccs)).symm
  rw [drop_eq_getElem_cons hlt, heq] at hsplit
  rcases hfirst.ready _ _ _ hsplit consumer hin dependency hedge with hsame | hbefore
  · rw [((h.mem_owners_iff hget).mp hsame).2]
  · have hlow := (h.mem_done_iff hsplit hdependency).mp hbefore
    rw [length_take] at hlow
    omega

/-- **Components in dependency order are accepted.** -/
theorem admitted_of_dependencyFirst (h : SccPartition partition sccs tables)
    (hedges : EdgesForward partition (sccOf partition tables.ownerToScc) edges)
    (hfirst : DependencyFirst (DependsOn edges) (· ∈ partition) (memberLists sccs)) :
    (∀ component ∈ sccs,
      Connected (innerEdges (sccOf partition tables.ownerToScc) edges) component) ∧
    ∀ position < sccs.length, GoesNext sccs
      (componentEdges (sccOf partition tables.ownerToScc) edges) position := by
  constructor
  · intro component hcomponent _ first hhead
    obtain ⟨index, hindex⟩ := mem_iff_getElem?.mp hcomponent
    have hget : (memberLists sccs)[index]? = some component.owners := by
      rw [getElem?_map, hindex]
      rfl
    have hin : first ∈ component.owners := mem_of_mem_head? hhead
    obtain ⟨hfirstmem, hscc⟩ := (h.mem_owners_iff hget).mp hin
    -- members reach each other, and their paths stay inside the component
    have hmutual : ∀ owner ∈ component.owners, Mutual (DependsOn edges) first owner :=
      fun owner howner =>
        ((hfirst.members _ (mem_map_of_mem hcomponent) first hin owner).mp howner).2
    refine ⟨fun owner => ⟨fun hpath => ?_, fun howner => ?_⟩,
      fun owner => ⟨fun hpath => ?_, fun howner => ?_⟩⟩
    · obtain ⟨hsame, hiff⟩ := hedges.scc_eq_of_inner hpath
      exact (h.mem_owners_iff hget).mpr ⟨hiff.mp hfirstmem, hsame.trans hscc⟩
    · have howner' := ((h.mem_owners_iff hget).mp howner).2
      exact hedges.inner (hmutual owner howner).1 (by omega)
    · obtain ⟨hsame, hiff⟩ := hedges.scc_eq_of_inner (reflTransGen_swap.mp hpath)
      exact (h.mem_owners_iff hget).mpr ⟨hiff.mpr hfirstmem, hsame.symm.trans hscc⟩
    · have howner' := ((h.mem_owners_iff hget).mp howner).2
      exact reflTransGen_swap.mpr (hedges.inner (hmutual owner howner).2 (by omega))
  · intro position hposition component hlt hbound hwaiting first hfirstHead second hsecondHead
    have hlists : position < (memberLists sccs).length := by rwa [length_map]
    have hlists' : component < (memberLists sccs).length := by rwa [length_map]
    have hsplit := (take_append_drop position (memberLists sccs)).symm
    rw [drop_eq_getElem_cons hlists] at hsplit
    have hlength : ((memberLists sccs).take position).length = position := by
      rw [length_take]
      omega
    have hget := getElem?_eq_getElem hlists'
    rw [getD_eq_getElem?_getD, getElem?_eq_getElem hlists] at hfirstHead
    rw [getD_eq_getElem?_getD, hget] at hsecondHead
    refine hfirst.least _ _ _ hsplit (memberLists sccs)[component] ?_ ?_ first hfirstHead second
      hsecondHead
    · rw [mem_drop_iff_getElem]
      exact ⟨component - (position + 1), by omega, by
        congr 1
        omega⟩
    · intro owner howner target hedge
      obtain ⟨_, hscc⟩ := (h.mem_owners_iff hget).mp howner
      have htarget := hedges.dependency_mem owner target hedge
      by_cases hsame : sccOf partition tables.ownerToScc target = component
      · exact .inl ((h.mem_owners_iff hget).mpr ⟨htarget, hsame⟩)
      · refine .inr ((h.mem_done_iff hsplit htarget).mpr ?_)
        rw [hlength]
        exact waiting_eq_zero.mp hwaiting (toLex (_, component))
          (mem_componentEdges.mpr ⟨hsame, owner, target, hedge, rfl, hscc⟩) rfl

end Graph

end Typokat.Replay
