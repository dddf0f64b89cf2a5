import Mathlib.Logic.Relation
import Mathlib.Data.List.Nodup
import Mathlib.Data.List.Pairwise
import Mathlib.Data.List.Sort
import Mathlib.Data.Finset.Card
import Mathlib.Data.Finset.Max
import Mathlib.Order.Defs.LinearOrder

/-!
# Directed Graphs: Finishing Orders and Condensations

A graph is a relation `edge`.  Depth-first search with an explicit stack keeps a marker
for every node that is open; `MarkerStack` is what holds of such a search between two
pops.  The order in which the nodes finish is what a second search over the reversed
edges needs to cut off one strongly connected component after the other.

## Main Results

- `MarkerStack.popSeen`, `MarkerStack.popMarker`, `MarkerStack.expand` : the three steps
- `FinishOrder.mutual` : in a finishing order, what still reaches the next node is its component
- `DependencyFirst.unique` : the components in dependency order, least first, are determined
- `Kahn.emit`, `Kahn.complete` : one step of Kahn's algorithm, and that it leaves nothing over
-/

namespace Typokat.Lib

open Relation.ReflTransGen List Relation

universe u

variable {α : Type u} {edge : α → α → Prop}

/-! ## §1 Mutual reachability -/

/-- `Mutual edge a b` : each of the two nodes reaches the other. -/
def Mutual (edge : α → α → Prop) (a b : α) : Prop :=
  Relation.ReflTransGen edge a b ∧ Relation.ReflTransGen edge b a

theorem Mutual.refl (a : α) : Mutual edge a a := ⟨.refl, .refl⟩

theorem Mutual.symm {a b : α} (h : Mutual edge a b) : Mutual edge b a := ⟨h.2, h.1⟩

theorem Mutual.trans {a b c : α} (hab : Mutual edge a b) (hbc : Mutual edge b c) :
    Mutual edge a c :=
  ⟨hab.1.trans hbc.1, hbc.2.trans hab.2⟩

/-- A path inside the nodes of `black`, with at most its last node outside. -/
abbrev InnerPath (edge : α → α → Prop) (black : List α) : α → α → Prop :=
  Relation.ReflTransGen (fun a b => a ∈ black ∧ edge a b)

theorem InnerPath.reach {black : List α} {a b : α} (h : InnerPath edge black a b) :
    ReflTransGen edge a b :=
  mono (fun _ _ hstep => hstep.2) _ _ h

/-- A path that leaves `black` has a first node outside. -/
theorem exists_exit {black : List α} {a b : α} (h : ReflTransGen edge a b) (hout : b ∉ black) :
    ∃ exit, InnerPath edge black a exit ∧ exit ∉ black := by
  induction h using head_induction_on with
  | refl => exact ⟨b, .refl, hout⟩
  | @head first _ hstep _ ih =>
    by_cases hfirst : first ∈ black
    · obtain ⟨exit, hpath, hexit⟩ := ih
      exact ⟨exit, .head ⟨hfirst, hstep⟩ hpath, hexit⟩
    · exact ⟨first, .refl, hfirst⟩

/-- A path inside `node :: black` avoids `node` or can be cut at its first visit. -/
theorem InnerPath.cut {black : List α} {node a b : α} (h : InnerPath edge (node :: black) a b) :
    InnerPath edge black a b ∨ InnerPath edge black a node := by
  induction h using head_induction_on with
  | refl => exact .inl .refl
  | head hstep _ ih =>
    obtain ⟨hmem, hedge⟩ := hstep
    rcases mem_cons.mp hmem with rfl | hmem
    · exact .inr .refl
    · rcases ih with ih | ih
      · exact .inl (.head ⟨hmem, hedge⟩ ih)
      · exact .inr (.head ⟨hmem, hedge⟩ ih)

/-! ## §2 Finishing orders -/

/-- The nodes of a depth-first search by finishing time, the latest first: whatever reaches
a node has a twin in its own component that is not finished before that node. -/
def FinishOrder (edge : α → α → Prop) (order : List α) : Prop :=
  ∀ later node earlier, order = later ++ node :: earlier →
    ∀ source, Relation.ReflTransGen edge source node →
      ∃ twin, Mutual edge source twin ∧ twin ∉ earlier

/-- **Cutting off a component**: let `done` be a union of components that holds everything
before `node` in a finishing order.  What reaches `node` outside `done` is mutual with it. -/
theorem FinishOrder.mutual {order later earlier : List α} {node source : α} {done : α → Prop}
    (horder : FinishOrder edge order) (hsplit : order = later ++ node :: earlier)
    (hall : ∀ a b, ReflTransGen edge a b → b ∈ order → a ∈ order)
    (hdone : ∀ a b, done a → Mutual edge a b → done b) (hlater : ∀ a ∈ later, done a)
    (hsource : ¬ done source) (hreach : ReflTransGen edge source node) :
    Mutual edge source node := by
  obtain ⟨twin, htwin, hlate⟩ := horder later node earlier hsplit source hreach
  have hmem : twin ∈ order := by
    refine hall twin node (htwin.2.trans hreach) ?_
    rw [hsplit]
    exact mem_append_right _ mem_cons_self
  rw [hsplit] at hmem
  rcases mem_append.mp hmem with h | h
  · exact absurd (hdone twin source (hlater twin h) htwin.symm) hsource
  · rcases mem_cons.mp h with rfl | h
    · exact htwin
    · exact absurd h hlate

/-! ## §3 Depth-first search with a marker stack -/

/-- **The search between two pops.**  A stack entry `(node, true)` marks an open node; an entry
`(node, false)` waits to be visited.  `order` lists the finished nodes, the latest first. -/
structure MarkerStack (edge : α → α → Prop) (stack : List (α × Bool)) (seen : α → Prop)
    (order : List α) : Prop where
  seen_iff : ∀ node, seen node ↔ node ∈ order ∨ (node, true) ∈ stack
  nodup : order.Nodup
  unfinished : ∀ node, (node, true) ∈ stack → node ∉ order
  markers : (stack.filter (fun entry => entry.2)).Nodup
  below : stack.Pairwise (fun above below =>
    below.2 = true → Relation.ReflTransGen edge below.1 above.1)
  pending : ∀ above node below, stack = above ++ (node, true) :: below →
    ∀ target, edge node target → seen target ∨ (target, false) ∈ above
  closed : ∀ node ∈ order, ∀ target, edge node target → seen target
  turns : ∀ node exit, InnerPath edge order node exit → exit ∉ order →
    Relation.ReflTransGen edge exit node
  finish : FinishOrder edge order

namespace MarkerStack

variable {stack : List (α × Bool)} {seen : α → Prop} {order : List α}

/-- The state before the first search. -/
theorem empty : MarkerStack edge [] (fun _ => False) ([] : List α) where
  seen_iff node := by simp
  nodup := nodup_nil
  unfinished node h := by simp at h
  markers := nodup_nil
  below := List.Pairwise.nil
  pending above node below h := by simp at h
  closed node h := by simp at h
  turns node exit hpath _ := by
    rcases cases_tail hpath with rfl | ⟨_, _, hmem, _⟩
    · exact .refl
    · simp at hmem
  finish later node earlier h := by simp at h

/-- A search starts with one waiting node. -/
theorem start (h : MarkerStack edge [] seen order) (node : α) :
    MarkerStack edge [(node, false)] seen order where
  seen_iff other := by simpa using h.seen_iff other
  nodup := h.nodup
  unfinished other hmem := by simp at hmem
  markers := by simp
  below := pairwise_singleton _ _
  pending above other below hsplit := by
    have hmem : (other, true) ∈ [(node, false)] := by
      rw [hsplit]
      simp
    simp at hmem
  closed := h.closed
  turns := h.turns
  finish := h.finish

/-- A waiting node that was visited in the meantime is dropped. -/
theorem popSeen {node : α} (h : MarkerStack edge ((node, false) :: stack) seen order)
    (hseen : seen node) : MarkerStack edge stack seen order where
  seen_iff other := by simpa using h.seen_iff other
  nodup := h.nodup
  unfinished other hmem := h.unfinished other (mem_cons_of_mem _ hmem)
  markers := by simpa using h.markers
  below := (pairwise_cons.mp h.below).2
  pending above other below hsplit target hedge := by
    have hold := h.pending ((node, false) :: above) other below (by rw [hsplit]; rfl) target hedge
    rcases hold with hold | hold
    · exact .inl hold
    · rcases mem_cons.mp hold with heq | hold
      · cases heq
        exact .inl hseen
      · exact .inr hold
  closed := h.closed
  turns := h.turns
  finish := h.finish

/-- An open node reaches everything above it on the stack. -/
theorem reach_top {node : α} {flag : Bool} {other : α}
    (h : MarkerStack edge ((node, flag) :: stack) seen order) (hmem : (other, true) ∈ stack) :
    ReflTransGen edge other node :=
  (pairwise_cons.mp h.below).1 (other, true) hmem rfl

/-- A marker on top of the stack finishes its node. -/
theorem popMarker {node : α} (h : MarkerStack edge ((node, true) :: stack) seen order) :
    MarkerStack edge stack seen (node :: order) := by
  have hopen : node ∉ order := h.unfinished node mem_cons_self
  have hfresh : (node, true) ∉ stack := by
    have hmarkers := h.markers
    simp only [filter_cons_of_pos, nodup_cons, mem_filter, and_true] at hmarkers
    exact hmarkers.1
  refine ⟨?_, nodup_cons.mpr ⟨hopen, h.nodup⟩, ?_, ?_, (pairwise_cons.mp h.below).2,
    ?_, ?_, ?_, ?_⟩
  · intro other
    rw [h.seen_iff other]
    simp only [mem_cons, Prod.mk.injEq, and_true]
    tauto
  · intro other hmem hfinished
    rcases mem_cons.mp hfinished with rfl | hfinished
    · exact hfresh hmem
    · exact h.unfinished other (mem_cons_of_mem _ hmem) hfinished
  · have hmarkers := h.markers
    simp only [filter_cons_of_pos, nodup_cons] at hmarkers
    exact hmarkers.2
  · intro above other below hsplit target hedge
    have hold := h.pending ((node, true) :: above) other below (by rw [hsplit]; rfl) target hedge
    simpa using hold
  · intro other hmem target hedge
    rcases mem_cons.mp hmem with rfl | hmem
    · simpa using h.pending [] other stack rfl target hedge
    · exact h.closed other hmem target hedge
  · -- the open nodes below reach the finished one, and so the nodes that lead to it
    intro start exit hpath hexit
    have hout : exit ∉ order := fun hmem => hexit (mem_cons_of_mem _ hmem)
    rcases hpath.cut with hinner | hcut
    · exact h.turns start exit hinner hout
    · rcases cases_tail hpath with rfl | ⟨last, hprev, hlast, hedge⟩
      · exact .refl
      · have hseen : seen exit := by
          rcases mem_cons.mp hlast with rfl | hlast
          · simpa using h.pending [] last stack rfl exit hedge
          · exact h.closed last hlast exit hedge
        have hmem : (exit, true) ∈ stack := by
          rcases (h.seen_iff exit).mp hseen with hmem | hmem
          · exact absurd hmem hout
          · rcases mem_cons.mp hmem with heq | hmem
            · cases heq
              exact absurd mem_cons_self hexit
            · exact hmem
        exact (h.reach_top hmem).trans (h.turns start node hcut hopen)
  · intro later other earlier hsplit source hreach
    cases later with
    | nil =>
      obtain ⟨rfl, rfl⟩ := cons.inj hsplit
      obtain ⟨exit, hpath, hexit⟩ := exists_exit hreach hopen
      exact ⟨exit, ⟨hpath.reach, h.turns source exit hpath hexit⟩, hexit⟩
    | cons first later =>
      exact h.finish later other earlier (cons.inj hsplit).2 source hreach

/-- An unseen node is opened: its marker goes on the stack and above it the targets that
still wait. -/
theorem expand {node : α} {targets : List α} {seen' : α → Prop}
    (h : MarkerStack edge ((node, false) :: stack) seen order) (hunseen : ¬ seen node)
    (hseen : ∀ other, seen' other ↔ other = node ∨ seen other)
    (hsound : ∀ target ∈ targets, edge node target)
    (hcomplete : ∀ target, edge node target → seen' target ∨ target ∈ targets) :
    MarkerStack edge (targets.map (fun target => (target, false)) ++ (node, true) :: stack)
      seen' order := by
  have hnot : node ∉ order ∧ (node, true) ∉ (node, false) :: stack := by
    rw [h.seen_iff node, not_or] at hunseen
    exact hunseen
  have hwaiting : ∀ other, (other, true) ∉ targets.map (fun target => (target, false)) := by
    intro other hmem
    obtain ⟨_, _, heq⟩ := mem_map.mp hmem
    cases heq
  refine ⟨?_, h.nodup, ?_, ?_, ?_, ?_, ?_, h.turns, h.finish⟩
  · intro other
    rw [hseen other, h.seen_iff other]
    simp only [mem_append, mem_cons, Prod.mk.injEq, and_true, hwaiting other,
      false_or, Bool.true_eq_false, and_false]
    tauto
  · intro other hmem hfinished
    rcases mem_append.mp hmem with hmem | hmem
    · exact hwaiting other hmem
    · rcases mem_cons.mp hmem with heq | hmem
      · cases heq
        exact hnot.1 hfinished
      · exact h.unfinished other (mem_cons_of_mem _ hmem) hfinished
  · have hmarkers := h.markers
    have hempty : (targets.map (fun target => (target, false))).filter
        (fun entry => entry.2) = [] := by
      rw [filter_eq_nil_iff]
      rintro ⟨other, flag⟩ hmem hflag
      obtain ⟨_, _, heq⟩ := mem_map.mp hmem
      cases heq
      simp at hflag
    rw [filter_append, hempty, nil_append, filter_cons_of_pos rfl, nodup_cons]
    refine ⟨fun hmem => hnot.2 (mem_cons_of_mem _ (mem_of_mem_filter hmem)), ?_⟩
    simpa using hmarkers
  · have hold := pairwise_cons.mp h.below
    refine pairwise_append.mpr ⟨?_, pairwise_cons.mpr ⟨?_, hold.2⟩, ?_⟩
    · refine pairwise_map.mpr (pairwise_of_forall ?_)
      intro _ _ hflag
      simp at hflag
    · exact fun entry hmem hflag => hold.1 entry hmem hflag
    · -- the waiting targets are reached from the node itself
      intro waiting hwaits entry hentry hflag
      obtain ⟨target, htarget, rfl⟩ := mem_map.mp hwaits
      have hstep : edge node target := hsound target htarget
      rcases mem_cons.mp hentry with rfl | hentry
      · exact .single hstep
      · exact (hold.1 entry hentry hflag).tail hstep
  · intro above other below hsplit target hedge
    -- the entry is an old marker, or the new one: its targets wait right above it
    rcases append_eq_append_iff.mp hsplit with ⟨middle, habove, hrest⟩ | ⟨middle, hwaits, _⟩
    · cases middle with
      | nil =>
        obtain ⟨heq, _⟩ := cons.inj hrest
        cases heq
        rcases hcomplete target hedge with hin | hin
        · exact .inl hin
        · refine .inr ?_
          rw [habove, append_nil]
          exact mem_map_of_mem hin
      | cons first middle =>
        obtain ⟨rfl, hstack⟩ := cons.inj hrest
        have hold := h.pending ((node, false) :: middle) other below (by rw [hstack]; rfl)
          target hedge
        rcases hold with hin | hin
        · exact .inl ((hseen target).mpr (.inr hin))
        · rcases mem_cons.mp hin with heq | hin
          · cases heq
            exact .inl ((hseen node).mpr (.inl rfl))
          · refine .inr ?_
            rw [habove]
            exact mem_append_right _ (mem_cons_of_mem _ hin)
    · cases middle with
      | nil =>
        rename_i hrest
        obtain ⟨heq, _⟩ := cons.inj hrest
        cases heq
        rcases hcomplete _ hedge with hin | hin
        · exact .inl hin
        · refine .inr ?_
          rw [append_nil] at hwaits
          rw [← hwaits]
          exact mem_map_of_mem hin
      | cons first middle =>
        rename_i hrest
        obtain ⟨rfl, _⟩ := cons.inj hrest
        refine absurd ?_ (hwaiting other)
        rw [hwaits]
        exact mem_append_right _ mem_cons_self
  · intro other hmem target hedge
    exact (hseen target).mpr (.inr (h.closed other hmem target hedge))

end MarkerStack

/-! ## §4 Components in dependency order -/

/-- The lists of `sccs` are the strongly connected components of the graph on `nodes`. -/
structure Partition (edge : α → α → Prop) (nodes : α → Prop) (sccs : List (List α)) : Prop where
  mem_iff : ∀ node, node ∈ sccs.flatten ↔ nodes node
  nodup : sccs.flatten.Nodup
  nonempty : ∀ component ∈ sccs, component ≠ []
  members : ∀ component ∈ sccs, ∀ node ∈ component, ∀ other,
    other ∈ component ↔ nodes other ∧ Mutual edge node other

/-- Every target of a node of the component is in the component or in `done`. -/
def ReadyAfter (edge : α → α → Prop) (done : List (List α)) (component : List α) : Prop :=
  ∀ node ∈ component, ∀ target, edge node target → target ∈ component ∨ target ∈ done.flatten

/-- **The canonical order of the components**: sorted components, each after the ones it
depends on, and of the components that are ready always the one with the least node. -/
structure DependencyFirst [LinearOrder α] (edge : α → α → Prop) (nodes : α → Prop)
    (sccs : List (List α)) : Prop extends Partition edge nodes sccs where
  sorted : ∀ component ∈ sccs, component.Pairwise (· < ·)
  ready : ∀ done component rest, sccs = done ++ component :: rest →
    ReadyAfter edge done component
  least : ∀ done component rest, sccs = done ++ component :: rest →
    ∀ other ∈ rest, ReadyAfter edge done other →
      ∀ first ∈ component.head?, ∀ second ∈ other.head?, first ≤ second

namespace Partition

variable {nodes : α → Prop} {sccs : List (List α)}

/-- Components that share a node are the same. -/
theorem eq_of_mem (h : Partition edge nodes sccs) {first second : List α} (hfirst : first ∈ sccs)
    (hsecond : second ∈ sccs) {node : α} (hin : node ∈ first) (hin' : node ∈ second) :
    first = second := by
  by_contra hne
  have hsymm : Std.Symm (List.Disjoint (α := α)) := ⟨fun _ _ => List.Disjoint.symm⟩
  have hdisjoint := (nodup_flatten.mp h.nodup).2
  exact hdisjoint.forall hfirst hsecond hne hin hin'

/-- Targets of a component lie in a component. -/
theorem exists_component (h : Partition edge nodes sccs) {node : α} (hnode : nodes node) :
    ∃ component ∈ sccs, node ∈ component :=
  mem_flatten.mp ((h.mem_iff node).mpr hnode)

/-- **Some component is ready**: while components are missing in `done`, one of them only
depends on itself and on `done`. -/
theorem exists_ready (h : Partition edge nodes sccs)
    (hclosed : ∀ node target, nodes node → edge node target → nodes target)
    (done : List (List α)) {missing : List α} (hmem : missing ∈ sccs) (hmissing : missing ∉ done) :
    ∃ component ∈ sccs, component ∉ done ∧ ReadyAfter edge done component := by
  classical
  -- induction on the number of components that the missing one reaches
  let reached (component : List α) : Finset (List α) :=
    sccs.toFinset.filter (fun other =>
      ∃ source ∈ component, ∃ target ∈ other, ReflTransGen edge source target)
  induction hcard : (reached missing).card using Nat.strong_induction_on generalizing missing with
  | _ card ih =>
    by_cases hready : ReadyAfter edge done missing
    · exact ⟨missing, hmem, hmissing, hready⟩
    · simp only [ReadyAfter, not_forall, not_or] at hready
      obtain ⟨node, hnode, target, hedge, hout, hundone⟩ := hready
      have hnodes : nodes node := (h.mem_iff node).mp (mem_flatten.mpr ⟨missing, hmem, hnode⟩)
      obtain ⟨next, hnext, htarget⟩ := h.exists_component (hclosed node target hnodes hedge)
      have hnextdone : next ∉ done := fun hin =>
        hundone (mem_flatten.mpr ⟨next, hin, htarget⟩)
      have hless : reached next ⊂ reached missing := by
        refine Finset.ssubset_iff_subset_ne.mpr ⟨?_, ?_⟩
        · intro other hother
          obtain ⟨hin, source, hsource, last, hlast, hpath⟩ := Finset.mem_filter.mp hother
          have hmutual := ((h.members next hnext target htarget source).mp hsource).2
          exact Finset.mem_filter.mpr ⟨hin, node, hnode, last, hlast,
            .head hedge (hmutual.1.trans hpath)⟩
        · intro heq
          have hself : missing ∈ reached missing :=
            Finset.mem_filter.mpr ⟨mem_toFinset.mpr hmem, node, hnode, node, hnode, .refl⟩
          rw [← heq] at hself
          obtain ⟨_, source, hsource, last, hlast, hpath⟩ := Finset.mem_filter.mp hself
          have hsource' := ((h.members next hnext target htarget source).mp hsource).2
          have hlast' := ((h.members missing hmem node hnode last).mp hlast).2
          have hback : ReflTransGen edge target node :=
            hsource'.1.trans (hpath.trans hlast'.2)
          exact hout ((h.members missing hmem node hnode target).mpr
            ⟨hclosed node target hnodes hedge, .single hedge, hback⟩)
      exact ih _ (hcard ▸ Finset.card_lt_card hless) hnext hnextdone rfl

end Partition

namespace DependencyFirst

variable [LinearOrder α] {nodes : α → Prop} {sccs other : List (List α)}

section Unique

variable (h : DependencyFirst edge nodes sccs) (h' : DependencyFirst edge nodes other)
include h h'

/-- Components of two orders of one graph that share a node are equal lists. -/
theorem component_eq {first second : List α} (hfirst : first ∈ sccs) (hsecond : second ∈ other)
    {node : α} (hin : node ∈ first) (hin' : node ∈ second) : first = second :=
  List.Pairwise.eq_of_mem_iff (h.sorted first hfirst) (h'.sorted second hsecond) (fun a => by
    rw [h.members first hfirst node hin, h'.members second hsecond node hin'])

/-- The next component of one order is among the remaining ones of the other. -/
theorem mem_rest {done rest rest' : List (List α)} {next : List α} (hsplit : sccs = done ++ rest)
    (hsplit' : other = done ++ next :: rest') : next ∈ rest := by
  have hnext : next ∈ other := by
    rw [hsplit']
    exact mem_append_right _ mem_cons_self
  obtain ⟨node, hnode⟩ := exists_mem_of_ne_nil next (h'.nonempty next hnext)
  have hnodes : nodes node := (h'.mem_iff node).mp (mem_flatten.mpr ⟨next, hnext, hnode⟩)
  obtain ⟨component, hmem, hin⟩ := h.exists_component hnodes
  have heq : component = next := component_eq h h' hmem hnext hin hnode
  subst heq
  rw [hsplit] at hmem
  rcases mem_append.mp hmem with hdone | hrest
  · have hnodup := h'.nodup
    rw [hsplit', flatten_append, nodup_append] at hnodup
    refine absurd rfl (hnodup.2.2 node (mem_flatten.mpr ⟨component, hdone, hin⟩) node ?_)
    rw [flatten_cons]
    exact mem_append_left _ hin
  · exact hrest

/-- **The order is determined**: two lists of the components of one graph in canonical order
are equal. -/
theorem unique :
    sccs = other := by
  -- both lists agree on a growing front part `done`
  suffices hrest : ∀ rest done rest', sccs = done ++ rest → other = done ++ rest' →
      rest = rest' by
    exact hrest sccs [] other rfl rfl
  intro rest
  induction rest with
  | nil =>
    intro done rest' hsplit hsplit'
    cases rest' with
    | nil => rfl
    | cons next rest' => exact absurd (mem_rest h h' hsplit hsplit') not_mem_nil
  | cons first rest ih =>
    intro done rest' hsplit hsplit'
    cases rest' with
    | nil => exact absurd (mem_rest h' h hsplit' hsplit) not_mem_nil
    | cons next rest' =>
      have hnext := mem_rest h h' hsplit hsplit'
      have hfirst := mem_rest h' h hsplit' hsplit
      have heq : first = next := by
        rcases mem_cons.mp hnext with heq | hnext
        · exact heq.symm
        rcases mem_cons.mp hfirst with heq | hfirst
        · exact heq
        have hin : first ∈ sccs := by
          rw [hsplit]
          exact mem_append_right _ mem_cons_self
        have hin' : next ∈ other := by
          rw [hsplit']
          exact mem_append_right _ mem_cons_self
        obtain ⟨a, as, ha⟩ := exists_cons_of_ne_nil (h.nonempty first hin)
        obtain ⟨b, bs, hb⟩ := exists_cons_of_ne_nil (h'.nonempty next hin')
        have hab : a ≤ b := h.least done first rest hsplit next hnext
          (h'.ready done next rest' hsplit') a (by rw [ha]; rfl) b (by rw [hb]; rfl)
        have hba : b ≤ a := h'.least done next rest' hsplit' first hfirst
          (h.ready done first rest hsplit) b (by rw [hb]; rfl) a (by rw [ha]; rfl)
        have hsame : a = b := le_antisymm hab hba
        refine component_eq h h' hin hin' (?_ : a ∈ first) ?_
        · rw [ha]
          exact mem_cons_self
        · rw [hb, hsame]
          exact mem_cons_self
      subst heq
      have hstep := ih (done ++ [first]) rest' (by simp [hsplit]) (by simp [hsplit'])
      rw [hstep]

end Unique

end DependencyFirst

/-! ## §5 Kahn's algorithm -/

/-- A fold whose steps can only add to a fact collects it from the entries. -/
theorem foldl_collects {σ : Type*} {β : Type*} {f : σ → β → σ} (inv : σ → Prop) (fact : σ → Prop)
    (adds : β → Prop) : ∀ (entries : List β) (state : σ), inv state →
      (∀ entry ∈ entries, ∀ state, inv state →
        inv (f state entry) ∧ (fact (f state entry) ↔ fact state ∨ adds entry)) →
      inv (entries.foldl f state) ∧
        (fact (entries.foldl f state) ↔ fact state ∨ ∃ entry ∈ entries, adds entry)
  | [], state, h, _ => ⟨h, by simp⟩
  | entry :: entries, state, h, step => by
    obtain ⟨hfirst, hrest⟩ := forall_mem_cons.mp step
    obtain ⟨hinv, hfact⟩ := hfirst state h
    obtain ⟨hfinal, hall⟩ := foldl_collects inv fact adds entries (f state entry) hinv hrest
    refine ⟨hfinal, ?_⟩
    rw [foldl_cons, hall, hfact]
    simp only [mem_cons, exists_eq_or_imp]
    exact or_assoc

/-- The state of Kahn's algorithm after `done`: `pending` is what the nodes still need, and
`ready` are the nodes that need nothing any more. -/
structure Kahn (nodes : α → Prop) (needs : α → α → Prop) (done : List α)
    (pending : α → α → Prop) (ready : α → Prop) : Prop where
  nodup : done.Nodup
  isNode : ∀ node ∈ done, nodes node
  pending_iff : ∀ node target, nodes node →
    (pending node target ↔ needs node target ∧ target ∉ done)
  ready_iff : ∀ node, ready node ↔
    nodes node ∧ node ∉ done ∧ ∀ target, needs node target → target ∈ done
  closed : ∀ node ∈ done, ∀ target, needs node target → target ∈ done

/-- The nodes of `rest` continue `done`: each comes after what it needs, and before the other
nodes that are ready with it. -/
structure GreedyRest (nodes : α → Prop) (needs before : α → α → Prop) (done rest : List α) :
    Prop where
  nodup : (done ++ rest).Nodup
  complete : ∀ node, node ∈ done ++ rest ↔ nodes node
  ready : ∀ front node back, rest = front ++ node :: back →
    ∀ target, needs node target → target ∈ done ++ front
  least : ∀ front node back, rest = front ++ node :: back → ∀ other ∈ back,
    (∀ target, needs other target → target ∈ done ++ front) → before node other

namespace Kahn

variable {nodes : α → Prop} {needs : α → α → Prop} {done : List α} {pending : α → α → Prop}
  {ready : α → Prop}

/-- Emitting a ready node: it is dropped from what the others need, and who needed only it
becomes ready. -/
theorem emit (h : Kahn nodes needs done pending ready) {node : α} (hnode : ready node)
    {pending' : α → α → Prop} {ready' : α → Prop}
    (hpending : ∀ other target, nodes other → (pending' other target ↔
      pending other target ∧ ¬ (needs other node ∧ target = node)))
    (hready : ∀ other, ready' other ↔ (ready other ∧ other ≠ node) ∨
      (nodes other ∧ other ≠ node ∧ needs other node ∧
        ∀ target, pending other target → target = node)) :
    Kahn nodes needs (done ++ [node]) pending' ready' := by
  obtain ⟨hisNode, hopen, hneeds⟩ := (h.ready_iff node).mp hnode
  refine ⟨?_, ?_, fun other target hother => ?_, fun other => ?_, ?_⟩
  · rw [nodup_append]
    refine ⟨h.nodup, nodup_singleton _, ?_⟩
    rintro first hfirst _ hsecond rfl
    exact hopen (mem_singleton.mp hsecond ▸ hfirst)
  · refine forall_mem_append.mpr ⟨h.isNode, fun other hother => ?_⟩
    rw [mem_singleton.mp hother]
    exact hisNode
  · rw [hpending other target hother, h.pending_iff other target hother, mem_append, mem_singleton]
    by_cases heq : target = node
    · subst heq
      tauto
    · tauto
  · rw [hready, h.ready_iff, mem_append, mem_singleton]
    constructor
    · rintro (⟨⟨hother, hout, hall⟩, hne⟩ | ⟨hother, hne, hneed, hall⟩)
      · exact ⟨hother, not_or.mpr ⟨hout, hne⟩, fun t ht => mem_append_left _ (hall t ht)⟩
      · refine ⟨hother, not_or.mpr ⟨fun hin => hopen (h.closed other hin node hneed), hne⟩, ?_⟩
        intro target htarget
        by_cases hin : target ∈ done
        · exact mem_append_left _ hin
        · rw [hall target ((h.pending_iff other target hother).mpr ⟨htarget, hin⟩)]
          exact mem_append_right _ mem_cons_self
    · rintro ⟨hother, hout, hall⟩
      obtain ⟨hout, hne⟩ := not_or.mp hout
      have hcases : ∀ target, needs other target → target ∈ done ∨ target = node := by
        intro target htarget
        rcases mem_append.mp (hall target htarget) with hin | hin
        · exact .inl hin
        · exact .inr (mem_singleton.mp hin)
      by_cases hneed : needs other node
      · refine .inr ⟨hother, hne, hneed, fun target htarget => ?_⟩
        obtain ⟨htarget, hnot⟩ := (h.pending_iff other target hother).mp htarget
        exact (hcases target htarget).resolve_left hnot
      · refine .inl ⟨⟨hother, hout, fun target htarget => ?_⟩, hne⟩
        refine (hcases target htarget).resolve_right ?_
        rintro rfl
        exact hneed htarget
  · refine forall_mem_append.mpr ⟨fun other hother target htarget => ?_, ?_⟩
    · exact mem_append_left _ (h.closed other hother target htarget)
    · intro other hother target htarget
      rw [mem_singleton.mp hother] at htarget
      exact mem_append_left _ (hneeds target htarget)

/-- Emitting a ready node by a loop over the nodes that need it: each step drops the node from
what one dependent needs, and makes the dependent ready when nothing else is left. -/
theorem emit_foldl {σ : Type*} (pend : σ → α → α → Prop) (rdy : σ → α → Prop)
    (step : σ → α → σ) (state start : σ) {dependents : List α}
    (h : Kahn nodes needs done (pend state) (rdy state))
    {node : α} (hnode : rdy state node) (hself : ¬ needs node node)
    (hpend : ∀ other target, pend start other target ↔ pend state other target)
    (hrdy : ∀ other, rdy start other ↔ rdy state other ∧ other ≠ node)
    (hdependents : ∀ other, other ∈ dependents ↔ nodes other ∧ needs other node)
    (inv : σ → Prop) (hinv : inv start)
    (hstep : ∀ dependent ∈ dependents, ∀ state, inv state →
      inv (step state dependent) ∧
      (∀ other target, pend (step state dependent) other target ↔
        pend state other target ∧ ¬ (other = dependent ∧ target = node)) ∧
      ∀ other, rdy (step state dependent) other ↔ rdy state other ∨
        (other = dependent ∧ ∀ target, pend state dependent target → target = node)) :
    Kahn nodes needs (done ++ [node]) (pend (dependents.foldl step start))
        (rdy (dependents.foldl step start)) ∧ inv (dependents.foldl step start) := by
  -- other needs than the emitted node stay, whatever was released before
  let keeps (state : σ) : Prop := inv state ∧ ∀ other target, target ≠ node →
    (pend state other target ↔ pend start other target)
  have hkeeps : ∀ dependent ∈ dependents, ∀ state, keeps state → keeps (step state dependent) := by
    rintro dependent hmem state ⟨hstate, hsame⟩
    obtain ⟨hnext, hpending, _⟩ := hstep dependent hmem state hstate
    refine ⟨hnext, fun other target hne => ?_⟩
    rw [← hsame other target hne, hpending]
    exact ⟨And.left, fun hin => ⟨hin, fun heq => hne heq.2⟩⟩
  have honly : ∀ dependent state, keeps state →
      ((∀ target, pend state dependent target → target = node) ↔
        ∀ target, pend start dependent target → target = node) := by
    rintro dependent state ⟨_, hsame⟩
    refine forall_congr' (fun target => ?_)
    by_cases heq : target = node
    · simp [heq]
    · rw [hsame dependent target heq]
  have hstart : keeps start := ⟨hinv, fun _ _ _ => Iff.rfl⟩
  have hfinal := (foldl_collects keeps (fun _ => False) (fun _ => False) dependents start hstart
    (fun dependent hmem state hstate => ⟨hkeeps dependent hmem state hstate, by simp⟩)).1.1
  refine ⟨h.emit hnode (fun other target hother => ?_) (fun other => ?_), hfinal⟩
  · have hremoved := (foldl_collects keeps (fun state => ¬ pend state other target)
      (fun dependent => other = dependent ∧ target = node) dependents start hstart
      (fun dependent hmem state hstate => ⟨hkeeps dependent hmem state hstate, by
        rw [(hstep dependent hmem state hstate.1).2.1]
        tauto⟩)).2
    have hmem : (∃ dependent ∈ dependents, other = dependent ∧ target = node) ↔
        needs other node ∧ target = node := by
      constructor
      · rintro ⟨_, hmem, rfl, heq⟩
        exact ⟨((hdependents other).mp hmem).2, heq⟩
      · exact fun ⟨hneed, heq⟩ => ⟨other, (hdependents other).mpr ⟨hother, hneed⟩, rfl, heq⟩
    rw [hmem, hpend] at hremoved
    rw [← not_iff_not, hremoved]
    tauto
  · rw [(foldl_collects keeps (fun state => rdy state other)
      (fun dependent => other = dependent ∧
        ∀ target, pend start dependent target → target = node) dependents start hstart
      (fun dependent hmem state hstate => ⟨hkeeps dependent hmem state hstate, by
        rw [(hstep dependent hmem state hstate.1).2.2, honly dependent state hstate]⟩)).2, hrdy]
    refine or_congr Iff.rfl ⟨?_, ?_⟩
    · rintro ⟨_, hmem, rfl, hall⟩
      obtain ⟨hother, hneed⟩ := (hdependents other).mp hmem
      refine ⟨hother, ?_, hneed, fun target htarget => hall target ((hpend _ _).mpr htarget)⟩
      rintro rfl
      exact hself hneed
    · rintro ⟨hother, _, hneed, hall⟩
      exact ⟨other, (hdependents other).mpr ⟨hother, hneed⟩, rfl,
        fun target htarget => hall target ((hpend _ _).mp htarget)⟩

/-- With a ready node at hand, not all of a list of nodes is done. -/
theorem length_lt (h : Kahn nodes needs done pending ready) {all : List α}
    (hall : ∀ node, nodes node → node ∈ all) {node : α} (hnode : ready node) :
    done.length < all.length := by
  obtain ⟨hisNode, hopen, _⟩ := (h.ready_iff node).mp hnode
  have hsub : node :: done ⊆ all :=
    cons_subset.mpr ⟨hall node hisNode, fun other hother => hall other (h.isNode other hother)⟩
  have hle := (subperm_of_subset (nodup_cons.mpr ⟨hopen, h.nodup⟩) hsub).length_le
  rw [length_cons] at hle
  exact hle

/-- **Nothing is left over**: when every need has a smaller rank and no node is ready, every
node is done. -/
theorem complete {P : Type*} [LinearOrder P] (h : Kahn nodes needs done pending ready)
    {all : List α} (hall : ∀ node, nodes node ↔ node ∈ all) (rank : α → P)
    (hrank : ∀ node target, nodes node → needs node target → nodes target ∧ rank target < rank node)
    (hnone : ∀ node, ¬ ready node) (node : α) (hnode : nodes node) : node ∈ done := by
  classical
  by_contra hout
  -- take a missing node of least rank: what it needs is done, so it would be ready
  obtain ⟨least, hleast, hmin⟩ := Finset.exists_min_image
    (all.toFinset.filter (fun other => other ∉ done)) rank
    ⟨node, Finset.mem_filter.mpr ⟨mem_toFinset.mpr ((hall node).mp hnode), hout⟩⟩
  obtain ⟨hmem, hmissing⟩ := Finset.mem_filter.mp hleast
  have hisNode : nodes least := (hall least).mpr (mem_toFinset.mp hmem)
  refine hnone least ((h.ready_iff least).mpr ⟨hisNode, hmissing, fun target htarget => ?_⟩)
  obtain ⟨hisTarget, hless⟩ := hrank least target hisNode htarget
  by_contra hin
  exact absurd hless (not_lt.mpr (hmin target (Finset.mem_filter.mpr
    ⟨mem_toFinset.mpr ((hall target).mp hisTarget), hin⟩)))

/-- With every node done there is nothing left to emit. -/
theorem finished (h : Kahn nodes needs done pending ready) {before : α → α → Prop}
    (hcomplete : ∀ node, nodes node → node ∈ done) :
    GreedyRest nodes needs before done [] := by
  refine ⟨by simpa using h.nodup, fun node => ?_, fun front node back hsplit => ?_,
    fun front node back hsplit => ?_⟩
  · rw [append_nil]
    exact ⟨h.isNode node, hcomplete node⟩
  · simp at hsplit
  · simp at hsplit

end Kahn

namespace GreedyRest

variable {nodes : α → Prop} {needs before : α → α → Prop} {done rest other : List α}

/-- Emitting one node in front of the rest. -/
theorem cons {node : α} (hneeds : ∀ target, needs node target → target ∈ done)
    (hleast : ∀ other, nodes other → other ∉ done →
      (∀ target, needs other target → target ∈ done) → before node other)
    (h : GreedyRest nodes needs before (done ++ [node]) rest) :
    GreedyRest nodes needs before done (node :: rest) := by
  have happend : ∀ more, (done ++ [node]) ++ more = done ++ node :: more := by simp
  have hnodup := h.nodup
  rw [happend] at hnodup
  refine ⟨hnodup, fun other => ?_, ?_, ?_⟩
  · rw [← happend]
    exact h.complete other
  · intro front next back hsplit target htarget
    cases front with
    | nil =>
      obtain ⟨rfl, rfl⟩ := cons.inj hsplit
      exact mem_append_left _ (hneeds target htarget)
    | cons first front =>
      obtain ⟨rfl, hrest⟩ := cons.inj hsplit
      rw [← happend]
      exact h.ready front next back hrest target htarget
  · intro front next back hsplit other hother hall
    cases front with
    | nil =>
      obtain ⟨rfl, rfl⟩ := cons.inj hsplit
      have hout : other ∉ done := fun hin =>
        disjoint_of_nodup_append hnodup hin (mem_cons_of_mem _ hother)
      refine hleast other ((h.complete other).mp (mem_append_right _ hother)) hout ?_
      simpa using hall
    | cons first front =>
      obtain ⟨rfl, hrest⟩ := cons.inj hsplit
      rw [← happend] at hall
      exact h.least front next back hrest other hother hall

end GreedyRest

end Typokat.Lib
