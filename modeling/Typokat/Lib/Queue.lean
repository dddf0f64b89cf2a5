import Typokat.Lib.Worklist
import Typokat.Lib.Checks
import Mathlib.Data.List.Sort
import Std.Data.TreeSet.Lemmas

/-!
# Queues over a Set of Seen Nodes

Loops with a set of seen nodes and a queue: a node is put on the queue when it is first seen,
and a turn takes the first node and sees its targets.

## Main Results

- `Queue.mem_drain` : the loop sees what the starts reach
- `Queue.Running.tryDrain_ok` : so does the loop whose targets can be missing
-/

namespace Typokat.Lib

open List

/-- What a loop has seen, and what of it still waits. -/
structure Queue (α : Type) [LinearOrder α] where
  seen : Std.TreeSet α
  pending : List α

namespace Queue

variable {ε α : Type} [LinearOrder α] {edge : α → α → Prop} {start : α → Prop}

/-! ## §1 Loops -/

/-- A node is put on the queue when it is new. -/
def push (queue : Queue α) (node : α) : Queue α :=
  if node ∈ queue.seen then queue else ⟨queue.seen.insert node, queue.pending ++ [node]⟩

def pushAll (queue : Queue α) (nodes : List α) : Queue α :=
  nodes.foldl push queue

/-- Everything that a set starts with waits. -/
def ofSet (seen : Std.TreeSet α) : Queue α := ⟨seen, seen.toList⟩

/-- The nodes of a domain that are not seen yet. -/
def unseen (domain : List α) (queue : Queue α) : List α :=
  domain.filter (fun node => node ∉ queue.seen)

/-- A turn that sees a node of the domain pays for the place on the queue. -/
theorem length_push_le {domain : List α} {node : α} (hnode : node ∈ domain) (queue : Queue α) :
    ((queue.push node).unseen domain).length + (queue.push node).pending.length ≤
      (queue.unseen domain).length + queue.pending.length := by
  unfold push
  split
  · exact Nat.le_refl _
  · rename_i hnew
    have hsub : List.Sublist ((⟨queue.seen.insert node, queue.pending ++ [node]⟩ : Queue α).unseen
        domain) (queue.unseen domain) := by
      refine monotone_filter_right domain (fun other hother => ?_)
      rw [decide_eq_true_eq, Std.TreeSet.mem_insert, not_or] at hother
      exact decide_eq_true hother.2
    have hne : ((⟨queue.seen.insert node, queue.pending ++ [node]⟩ : Queue α).unseen
        domain).length ≠ (queue.unseen domain).length := by
      intro hlength
      have hin : node ∈ queue.unseen domain := mem_filter.mpr ⟨hnode, decide_eq_true hnew⟩
      rw [← hsub.eq_of_length hlength, unseen, mem_filter, decide_eq_true_eq,
        Std.TreeSet.mem_insert, not_or] at hin
      exact hin.2.1 Std.ReflCmp.compare_self
    have hle := hsub.length_le
    rw [length_append, length_singleton]
    omega

theorem length_pushAll_le {domain nodes : List α} (hnodes : ∀ node ∈ nodes, node ∈ domain)
    (queue : Queue α) :
    ((queue.pushAll nodes).unseen domain).length + (queue.pushAll nodes).pending.length ≤
      (queue.unseen domain).length + queue.pending.length := by
  induction nodes generalizing queue with
  | nil => exact Nat.le_refl _
  | cons node nodes ih =>
    obtain ⟨hnode, hrest⟩ := forall_mem_cons.mp hnodes
    exact (ih hrest (queue.push node)).trans (length_push_le hnode queue)

/-- Take nodes until none waits; all targets lie in a domain. -/
def drain (targets : α → List α) (domain : List α)
    (hall : ∀ node, ∀ target ∈ targets node, target ∈ domain) (queue : Queue α) :
    Std.TreeSet α :=
  match _hpending : queue.pending with
  | [] => queue.seen
  | node :: rest =>
    drain targets domain hall (pushAll ⟨queue.seen, rest⟩ (targets node))
termination_by (queue.unseen domain).length + queue.pending.length
decreasing_by
  refine lt_of_le_of_lt (length_pushAll_le (hall node) ⟨queue.seen, rest⟩) ?_
  rw [_hpending, length_cons]
  exact Nat.lt_succ_self _

/-- The same loop when a lookup of targets can fail. -/
def tryDrain (targets : α → Except ε (List α)) (domain : List α)
    (hall : ∀ node nodes, targets node = .ok nodes → ∀ target ∈ nodes, target ∈ domain)
    (queue : Queue α) : Except ε (Std.TreeSet α) :=
  match _hpending : queue.pending with
  | [] => .ok queue.seen
  | node :: rest =>
    match _htargets : targets node with
    | .error error => .error error
    | .ok nodes => tryDrain targets domain hall (pushAll ⟨queue.seen, rest⟩ nodes)
termination_by (queue.unseen domain).length + queue.pending.length
decreasing_by
  refine lt_of_le_of_lt (length_pushAll_le (hall node nodes _htargets) ⟨queue.seen, rest⟩) ?_
  rw [_hpending, length_cons]
  exact Nat.lt_succ_self _

/-! ## §2 What a turn keeps -/

variable {queue : Queue α}

theorem mem_seen_pushAll {nodes : List α} {other : α} :
    other ∈ (queue.pushAll nodes).seen ↔ other ∈ queue.seen ∨ other ∈ nodes := by
  induction nodes generalizing queue with
  | nil => simp [pushAll]
  | cons node nodes ih =>
    have hpush : other ∈ (queue.push node).seen ↔ other ∈ queue.seen ∨ other = node := by
      unfold push
      split
      · rename_i hin
        exact ⟨.inl, fun h => h.elim id (fun heq => heq ▸ hin)⟩
      · rw [Std.TreeSet.mem_insert, Std.LawfulEqCmp.compare_eq_iff_eq, or_comm, eq_comm]
    rw [pushAll, foldl_cons, ← pushAll, ih, hpush, mem_cons, or_assoc]

theorem mem_pending_pushAll {nodes : List α} {other : α} :
    other ∈ (queue.pushAll nodes).pending ↔
      other ∈ queue.pending ∨ (other ∈ nodes ∧ other ∉ queue.seen) := by
  induction nodes generalizing queue with
  | nil => simp [pushAll]
  | cons node nodes ih =>
    rw [pushAll, foldl_cons, ← pushAll, ih, mem_cons]
    unfold push
    split
    · rename_i hin
      constructor
      · rintro (h | ⟨h, hout⟩)
        · exact .inl h
        · exact .inr ⟨.inr h, hout⟩
      · rintro (h | ⟨rfl | h, hout⟩)
        · exact .inl h
        · exact absurd hin hout
        · exact .inr ⟨h, hout⟩
    · rename_i hnew
      simp only [mem_append, mem_singleton, Std.TreeSet.mem_insert,
        Std.LawfulEqCmp.compare_eq_iff_eq, not_or]
      constructor
      · rintro ((h | rfl) | ⟨h, hne, hout⟩)
        · exact .inl h
        · exact .inr ⟨.inl rfl, hnew⟩
        · exact .inr ⟨.inr h, hout⟩
      · rintro (h | ⟨rfl | h, hout⟩)
        · exact .inl (.inl h)
        · exact .inl (.inr rfl)
        · by_cases heq : node = other
          · exact .inl (.inr heq.symm)
          · exact .inr ⟨h, heq, hout⟩

/-- A queue in the middle of a loop: what is seen and does not wait is done. -/
def Running (edge : α → α → Prop) (start : α → Prop) (queue : Queue α) : Prop :=
  ∃ done, Worklist edge start (· ∈ queue.pending) done ∧
    ∀ node, node ∈ queue.seen ↔ done node ∨ node ∈ queue.pending

namespace Running

theorem initial {queue : Queue α} (hseen : ∀ node, node ∈ queue.seen ↔ start node)
    (hpending : ∀ node, node ∈ queue.pending ↔ start node) : Running edge start queue := by
  refine ⟨fun _ => False, Worklist.initial (fun node => (hpending node).symm), fun node => ?_⟩
  rw [hseen, hpending, false_or]

/-- One turn: the targets of the first node are put on the queue. -/
theorem turn {seen : Std.TreeSet α} {node : α} {rest targets : List α}
    (h : Running edge start ⟨seen, node :: rest⟩)
    (htargets : ∀ target, target ∈ targets ↔ edge node target) :
    Running edge start (pushAll ⟨seen, rest⟩ targets) := by
  obtain ⟨done, hworklist, hseen⟩ := h
  simp only [mem_cons] at hseen
  have hall : ∀ other, (done other ∨ other = node) ∨ other ∈ rest ∨
      (other ∈ targets ∧ other ∉ seen) ↔ other ∈ seen ∨ other ∈ targets := by
    intro other
    rw [hseen]
    tauto
  refine ⟨fun other => done other ∨ other = node,
    hworklist.expand (mem_cons_self) (fun other => Iff.rfl) (fun other => ?_),
    fun other => ?_⟩
  · rw [mem_pending_pushAll, hall, hseen, htargets, or_assoc, mem_cons]
  · rw [mem_seen_pushAll, mem_pending_pushAll, hall]

theorem finish {seen : Std.TreeSet α} (h : Running edge start ⟨seen, []⟩) (node : α) :
    node ∈ seen ↔ ReachedFrom edge start node := by
  obtain ⟨done, hworklist, hseen⟩ := h
  have hnone : (fun other => other ∈ ([] : List α)) = (fun _ : α => False) := by
    funext other
    exact propext (by simp)
  simp only [hnone] at hworklist
  rw [hseen, ← hworklist.finish]
  simp

/-- A node that waits is reached. -/
theorem reached {queue : Queue α} (h : Running edge start queue) {node : α}
    (hnode : node ∈ queue.pending) : ReachedFrom edge start node := by
  obtain ⟨done, hworklist, _⟩ := h
  exact hworklist.reached node (.inr hnode)

end Running

theorem running_ofSet {seen : Std.TreeSet α} : Running edge (· ∈ seen) (ofSet seen) :=
  Running.initial (fun _ => Iff.rfl) (fun _ => Std.TreeSet.mem_toList)

/-- **The loop computes a closure**: it sees exactly what the starts reach. -/
theorem mem_drain {targets : α → List α} {domain : List α}
    {hall : ∀ node, ∀ target ∈ targets node, target ∈ domain}
    (h : Running edge start queue) (htargets : ∀ node target, target ∈ targets node ↔ edge node target)
    (node : α) : node ∈ drain targets domain hall queue ↔ ReachedFrom edge start node := by
  fun_induction drain targets domain hall queue with
  | case1 queue hpending =>
    cases queue
    cases hpending
    exact h.finish node
  | case2 queue first rest hpending ih =>
    cases queue
    cases hpending
    exact ih (h.turn (htargets first))

/-- **The loop succeeds** when the targets of every reached node are there. -/
theorem Running.tryDrain_ok {targets : α → Except ε (List α)} {domain : List α}
    (h : Running edge start queue)
    (hall : ∀ node nodes, targets node = .ok nodes → ∀ target ∈ nodes, target ∈ domain)
    (htargets : ∀ node, ReachedFrom edge start node →
      ∃ nodes, targets node = .ok nodes ∧ ∀ target, target ∈ nodes ↔ edge node target) :
    ∃ seen, tryDrain targets domain hall queue = .ok seen ∧
      ∀ node, node ∈ seen ↔ ReachedFrom edge start node := by
  fun_induction tryDrain targets domain hall queue with
  | case1 queue hpending =>
    cases queue
    cases hpending
    exact ⟨_, rfl, h.finish⟩
  | case2 queue first rest hpending error herror =>
    obtain ⟨nodes, hnodes, _⟩ := htargets first (h.reached (hpending ▸ mem_cons_self))
    rw [herror] at hnodes
    cases hnodes
  | case3 queue first rest hpending nodes hok ih =>
    obtain ⟨nodes', hnodes, hedge⟩ := htargets first (h.reached (hpending ▸ mem_cons_self))
    rw [hok, Except.ok.injEq] at hnodes
    subst hnodes
    cases queue
    cases hpending
    exact ih (h.turn hedge)

end Queue

end Typokat.Lib
