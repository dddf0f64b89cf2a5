import Typokat.Lib.Attempt

/-!
# Contracts of Attempts

Pre- and postconditions for the successes of an attempt.  A frame is what every attempt of a
family keeps on the way: an invariant of the state, and a relation between earlier and later
states.  A fact that is stable along that relation is carried through any attempt.

## Main Results

- `Meets.bind` : a sequence meets what its parts meet one after the other
- `Meets.carry` : a stable fact still holds behind an attempt
- `Meets.forEach` : a loop keeps the frame when its body does
-/

namespace Typokat.Lib.Attempt

variable {S Stop F A B : Type}

/-- What every attempt of a family keeps. -/
structure Frame (S : Type) where
  inv : S → Prop
  later : S → S → Prop
  refl : ∀ s, later s s
  trans : ∀ s₁ s₂ s₃, later s₁ s₂ → later s₂ s₃ → later s₁ s₃

/-- A fact that later states keep. -/
def Frame.Stable (frame : Frame S) (P : S → Prop) : Prop :=
  ∀ s s', P s → frame.later s s' → P s'

theorem Frame.Stable.and {frame : Frame S} {P Q : S → Prop} (hP : frame.Stable P)
    (hQ : frame.Stable Q) : frame.Stable (fun s => P s ∧ Q s) := by
  intro s s' h hlater
  exact ⟨hP s s' h.1 hlater, hQ s s' h.2 hlater⟩

/-- From a state with the invariant and the precondition, every success leads to a later state
    with the invariant and the postcondition. -/
def Meets (frame : Frame S) (pre : S → Prop) (x : Attempt S Stop F A) (post : A → S → Prop) :
    Prop :=
  ∀ s a s', frame.inv s → pre s → x.run s = .ok (.ok a, s') →
    frame.inv s' ∧ frame.later s s' ∧ post a s'

/-- The attempt keeps the frame. -/
def Keeps (frame : Frame S) (x : Attempt S Stop F A) : Prop :=
  Meets frame (fun _ => True) x (fun _ _ => True)

/-- Stop for good. -/
def halt (stop : Stop) : Attempt S Stop F A := ⟨fun _ => .error stop⟩

/-- Read the state. -/
def read (f : S → A) : Attempt S Stop F A := step (fun s => (.ok (f s), s))

/-- Change the state. -/
def update (f : S → S) : Attempt S Stop F Unit := step (fun s => (.ok (), f s))

/-- Run an attempt for its effect. -/
def discard (x : Attempt S Stop F A) : Attempt S Stop F Unit := x >>= fun _ => pure ()

/-- Run an attempt for the elements of a list, one after the other. -/
def forEach (body : A → Attempt S Stop F Unit) : List A → Attempt S Stop F Unit
  | [] => pure ()
  | a :: as => body a >>= fun _ => forEach body as

/-- Run an attempt between two changes of the state. -/
def bracket (enter : S → S) (x : Attempt S Stop F A) (leave : S → S) : Attempt S Stop F A :=
  update enter >>= fun _ => x >>= fun a => update leave >>= fun _ => pure a

namespace Meets

variable {frame : Frame S} {pre pre' : S → Prop} {x : Attempt S Stop F A} {post : A → S → Prop}

theorem weaken (hx : Meets frame pre x post) {post' : A → S → Prop} (hpre : ∀ s, pre' s → pre s)
    (hpost : ∀ a s, post a s → post' a s) :
    Meets frame pre' x post' := by
  intro s a s' hinv hs hrun
  obtain ⟨hinv', hlater, hpost'⟩ := hx s a s' hinv (hpre s hs) hrun
  exact ⟨hinv', hlater, hpost a s' hpost'⟩

/-- What needs no precondition holds under any. -/
theorem anywhere (hx : Meets frame (fun _ => True) x post) : Meets frame pre x post :=
  hx.weaken (fun _ _ => trivial) (fun _ _ h => h)

theorem keeps (hx : Meets frame (fun _ => True) x post) : Keeps frame x :=
  hx.weaken (fun _ h => h) (fun _ _ _ => trivial)

theorem pure {a : A} (h : ∀ s, frame.inv s → pre s → post a s) :
    Meets frame pre (Pure.pure a : Attempt S Stop F A) post := by
  intro s b s' hinv hs hrun
  obtain ⟨rfl, rfl⟩ := pure_eq_ok.mp hrun
  exact ⟨hinv, frame.refl s, h s hinv hs⟩

/-- What stops has no success to speak of. -/
theorem halt {stop : Stop} : Meets frame pre (Attempt.halt stop : Attempt S Stop F A) post := by
  intro s a s' _ _ hrun
  cases hrun

/-- Nothing has to be met where the precondition never holds. -/
theorem vacuous (h : ∀ s, ¬ pre s) : Meets frame pre x post := by
  intro s a s' _ hs _
  exact absurd hs (h s)

theorem read {f : S → A} (h : ∀ s, frame.inv s → pre s → post (f s) s) :
    Meets frame pre (Attempt.read f : Attempt S Stop F A) post := by
  intro s a s' hinv hs hrun
  cases hrun
  exact ⟨hinv, frame.refl s, h s hinv hs⟩

theorem update {f : S → S} {post : Unit → S → Prop}
    (h : ∀ s, frame.inv s → pre s → frame.inv (f s) ∧ frame.later s (f s) ∧ post () (f s)) :
    Meets frame pre (Attempt.update f : Attempt S Stop F Unit) post := by
  intro s a s' hinv hs hrun
  cases hrun
  exact h s hinv hs

variable {f : A → Attempt S Stop F B}

/-- **A sequence meets what its parts meet one after the other.** -/
theorem bind {mid : A → S → Prop} {post : B → S → Prop} (hx : Meets frame pre x mid)
    (hf : ∀ a, Meets frame (mid a) (f a) post) :
    Meets frame pre (x >>= f) post := by
  intro s b s' hinv hs hrun
  obtain ⟨a, s₁, hfirst, hrest⟩ := bind_eq_ok.mp hrun
  obtain ⟨hinv₁, hlater₁, hmid⟩ := hx s a s₁ hinv hs hfirst
  obtain ⟨hinv', hlater', hpost⟩ := hf a s₁ b s' hinv₁ hmid hrest
  exact ⟨hinv', frame.trans s s₁ s' hlater₁ hlater', hpost⟩

/-- **A stable fact still holds behind an attempt.** -/
theorem carry {P : S → Prop} (hP : frame.Stable P) (hx : Meets frame pre x post) :
    Meets frame (fun s => pre s ∧ P s) x (fun a s => post a s ∧ P s) := by
  intro s a s' hinv hs hrun
  obtain ⟨hinv', hlater, hpost⟩ := hx s a s' hinv hs.1 hrun
  exact ⟨hinv', hlater, hpost, hP s s' hs.2 hlater⟩

/-- A part of the precondition that is not about the state. -/
theorem assuming {P : Prop} (hx : P → Meets frame pre x post) :
    Meets frame (fun s => pre s ∧ P) x post := by
  intro s a s' hinv hs hrun
  exact hx hs.2 s a s' hinv hs.1 hrun

/-- The precondition still holds behind an attempt. -/
theorem after {post : B → S → Prop} (hpre : frame.Stable pre)
    (hx : Meets frame (fun _ => True) x (fun _ _ => True))
    (hf : ∀ a, Meets frame pre (f a) post) : Meets frame pre (x >>= f) post := by
  refine bind ((carry hpre hx).weaken (fun _ h => ⟨trivial, h⟩) (fun _ _ h => h.2)) hf

/-- What an attempt establishes still holds at the end of a sequence. -/
theorem lasting {P : S → Prop} (hP : frame.Stable P) (hx : Meets frame pre x (fun _ => P))
    (hf : ∀ a, Keeps frame (f a)) :
    Meets frame pre (x >>= f) (fun _ => P) :=
  bind hx (fun a => (carry hP (hf a)).weaken (fun _ h => ⟨trivial, h⟩) (fun _ _ h => h.2))

/-- What holds in the middle of a bracket is what its two changes say. -/
theorem bracket {enter leave : S → S} {pre' : S → Prop} {mid post : A → S → Prop}
    (hx : Meets frame pre' x mid)
    (henter : ∀ s, frame.inv s → pre s → frame.inv (enter s) ∧ pre' (enter s))
    (hleave : ∀ s a s', frame.inv s → pre s → frame.inv s' → frame.later (enter s) s' →
      mid a s' → frame.inv (leave s') ∧ frame.later s (leave s') ∧ post a (leave s')) :
    Meets frame pre (Attempt.bracket enter x leave) post := by
  intro s a s' hinv hs hrun
  obtain ⟨_, s₁, henterRun, hrest⟩ := bind_eq_ok.mp hrun
  obtain ⟨b, s₂, hbody, hrest⟩ := bind_eq_ok.mp hrest
  obtain ⟨_, s₃, hleaveRun, hrest⟩ := bind_eq_ok.mp hrest
  obtain ⟨rfl, rfl⟩ := pure_eq_ok.mp hrest
  cases henterRun
  cases hleaveRun
  obtain ⟨hinv₁, hpre'⟩ := henter s hinv hs
  obtain ⟨hinv₂, hlater, hmid⟩ := hx (enter s) _ s₂ hinv₁ hpre' hbody
  exact hleave s _ s₂ hinv hs hinv₂ hlater hmid

/-- **A loop meets for every element what its body meets for one.** -/
theorem forEach {body : B → Attempt S Stop F Unit} {P Q : B → S → Prop}
    (hP : ∀ b, frame.Stable (P b)) (hQ : ∀ b, frame.Stable (Q b))
    (hbody : ∀ b, Meets frame (P b) (body b) (fun _ => Q b)) (bs : List B) :
    Meets frame (fun s => ∀ b ∈ bs, P b s) (Attempt.forEach body bs)
      (fun _ s => ∀ b ∈ bs, Q b s) := by
  induction bs with
  | nil => exact pure (fun _ _ _ b hb => absurd hb List.not_mem_nil)
  | cons b bs ih =>
    have hrest : frame.Stable (fun s => ∀ b ∈ bs, P b s) := by
      intro s s' h hlater b hb
      exact hP b s s' (h b hb) hlater
    have hhead : Meets frame (fun s => ∀ c ∈ b :: bs, P c s) (body b)
        (fun _ s => Q b s ∧ ∀ b ∈ bs, P b s) :=
      (carry hrest (hbody b)).weaken
        (fun s h => ⟨h b List.mem_cons_self, fun c hc => h c (List.mem_cons_of_mem b hc)⟩)
        (fun _ _ h => h)
    refine bind hhead (fun _ => (carry (hQ b) ih).weaken (fun _ h => ⟨h.2, h.1⟩) ?_)
    intro _ s h c hc
    rcases List.mem_cons.mp hc with rfl | hc
    · exact h.2
    · exact h.1 c hc

theorem discard {post : Unit → S → Prop} (hx : Meets frame pre x (fun _ => post ())) :
    Meets frame pre (Attempt.discard x) post :=
  hx.bind (fun _ => pure (fun _ _ h => h))

end Meets

namespace Keeps

variable {frame : Frame S} {x : Attempt S Stop F A}

/-- An attempt that keeps the frame keeps every stable fact. -/
theorem stable {P : S → Prop} (hP : frame.Stable P) (hx : Keeps frame x) :
    Meets frame P x (fun _ => P) :=
  (Meets.carry hP hx).weaken (fun _ h => ⟨trivial, h⟩) (fun _ _ h => h.2)

theorem bind {f : A → Attempt S Stop F B} (hx : Keeps frame x) (hf : ∀ a, Keeps frame (f a)) :
    Keeps frame (x >>= f) :=
  Meets.bind hx hf

theorem pure (a : A) : Keeps frame (Pure.pure a : Attempt S Stop F A) :=
  Meets.pure (fun _ _ _ => trivial)

theorem read (f : S → A) : Keeps frame (Attempt.read f : Attempt S Stop F A) :=
  Meets.read (fun _ _ _ => trivial)

theorem discard (hx : Keeps frame x) : Keeps frame (Attempt.discard x) :=
  Meets.discard hx

/-- **A loop keeps the frame when its body does.** -/
theorem forEach {body : B → Attempt S Stop F Unit} (hbody : ∀ b, Keeps frame (body b)) (bs : List B) :
    Keeps frame (Attempt.forEach body bs) := by
  induction bs with
  | nil => exact pure ()
  | cons b bs ih => exact bind (hbody b) (fun _ => ih)

end Keeps

end Typokat.Lib.Attempt
