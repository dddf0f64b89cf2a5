import Mathlib.Tactic.Common

/-!
# Attempts on a State

A computation that changes a state and then succeeds or fails; the state is kept either way,
so that whoever started the attempt decides what to undo.  It can also stop for good, and then
there is neither a result nor a state.  Where an attempt runs on fuel, it settles when enough
fuel decides how it ends.

## Main Results

- `Attempt.bind_eq_ok` : what a successful sequence went through
- `Attempt.Settles.bind` : on fuel, a sequence ends as its parts do
-/

namespace Typokat.Lib

/-- An attempt: `error` stops, and a result may be a failure. -/
structure Attempt (S Stop F A : Type) where
  run : S → Except Stop (Except F A × S)

namespace Attempt

variable {S Stop F A B : Type}

/-! ## §1 Sequences -/

/-- Go on after a success. -/
def andThen (x : Attempt S Stop F A) (f : A → Attempt S Stop F B) : Attempt S Stop F B :=
  ⟨fun s =>
    match x.run s with
    | .error stop => .error stop
    | .ok (.error failure, s) => .ok (.error failure, s)
    | .ok (.ok a, s) => (f a).run s⟩

instance : Monad (Attempt S Stop F) where
  pure a := ⟨fun s => .ok (.ok a, s)⟩
  bind := andThen

/-- Give up. -/
def fail (failure : F) : Attempt S Stop F A := ⟨fun s => .ok (.error failure, s)⟩

/-- A step that cannot stop. -/
def step (f : S → Except F A × S) : Attempt S Stop F A := ⟨fun s => .ok (f s)⟩

/-- The same attempt with other failures. -/
def mapFailure {G : Type} (f : F → G) (x : Attempt S Stop F A) : Attempt S Stop G A :=
  ⟨fun s =>
    match x.run s with
    | .error stop => .error stop
    | .ok (.error failure, s) => .ok (.error (f failure), s)
    | .ok (.ok a, s) => .ok (.ok a, s)⟩

/-- A value that may be missing. -/
def ofOption (failure : F) : Option A → Attempt S Stop F A
  | some a => pure a
  | none => fail failure

theorem pure_eq_ok {a b : A} {s s' : S} :
    (pure a : Attempt S Stop F A).run s = .ok (.ok b, s') ↔ a = b ∧ s = s' := by
  show Except.ok (Except.ok a, s) = _ ↔ _
  simp

theorem fail_ne_ok {failure : F} {b : A} {s s' : S} :
    (fail failure : Attempt S Stop F A).run s ≠ .ok (.ok b, s') := by
  intro h
  cases h

theorem ofOption_eq_ok {failure : F} {a : Option A} {b : A} {s s' : S} :
    (ofOption failure a : Attempt S Stop F A).run s = .ok (.ok b, s') ↔ a = some b ∧ s = s' := by
  cases a with
  | none =>
    constructor
    · intro h
      cases h
    · intro h
      cases h.1
  | some a =>
    rw [Option.some.injEq]
    exact pure_eq_ok

section Binding

variable {x : Attempt S Stop F A} {f : A → Attempt S Stop F B} {s s' : S}

theorem bind_of_error {stop : Stop} (h : x.run s = .error stop) :
    (x >>= f).run s = .error stop := by
  show (andThen x f).run s = _
  unfold andThen
  dsimp only
  rw [h]

theorem bind_of_failure {failure : F} (h : x.run s = .ok (.error failure, s')) :
    (x >>= f).run s = .ok (.error failure, s') := by
  show (andThen x f).run s = _
  unfold andThen
  dsimp only
  rw [h]

theorem bind_of_ok {a : A} (h : x.run s = .ok (.ok a, s')) : (x >>= f).run s = (f a).run s' := by
  show (andThen x f).run s = _
  unfold andThen
  dsimp only
  rw [h]

/-- **What a successful sequence went through.** -/
theorem bind_eq_ok {b : B} :
    (x >>= f).run s = .ok (.ok b, s') ↔
      ∃ a s₁, x.run s = .ok (.ok a, s₁) ∧ (f a).run s₁ = .ok (.ok b, s') := by
  constructor
  · intro h
    cases hx : x.run s with
    | error stop =>
      rw [bind_of_error hx] at h
      cases h
    | ok result =>
      obtain ⟨result, s₁⟩ := result
      cases result with
      | error failure =>
        rw [bind_of_failure hx] at h
        cases h
      | ok a => exact ⟨a, s₁, rfl, (bind_of_ok hx).symm.trans h⟩
  · intro h
    obtain ⟨a, s₁, hx, hf⟩ := h
    exact (bind_of_ok hx).trans hf

end Binding

/-! ## §2 Attempts on fuel -/

/-- The attempt has one ending, which more fuel does not change: for a reason of a kind it never
    goes on, or it has a result and has moved the state along `R`. -/
structure Settles (R : S → S → Prop) (stuck : Stop → Prop) (x : Nat → Attempt S Stop F A) :
    Prop where
  keeps : ∀ {n m s result}, n ≤ m → (x n).run s = .ok result → (x m).run s = .ok result
  ends : ∀ s, ∃ bound, (∃ stop, stuck stop ∧ ∀ n ≥ bound, (x n).run s = .error stop) ∨
    ∃ result s', R s s' ∧ ∀ n ≥ bound, (x n).run s = .ok (result, s')

section Settling

variable {R : S → S → Prop} {stuck : Stop → Prop} {x : Nat → Attempt S Stop F A}

/-- Whatever has a result has moved the state. -/
theorem Settles.moves (hx : Settles R stuck x) {n : Nat} {s s' : S} {result : Except F A}
    (h : (x n).run s = .ok (result, s')) : R s s' := by
  obtain ⟨bound, hend⟩ := hx.ends s
  have hlate := hx.keeps (Nat.le_max_left n bound) h
  rcases hend with ⟨stop, _, hstop⟩ | ⟨_, _, hR, hresult⟩
  · rw [hstop _ (Nat.le_max_right n bound)] at hlate
    cases hlate
  · rw [hresult _ (Nat.le_max_right n bound)] at hlate
    cases hlate
    exact hR

/-- An attempt that needs no fuel. -/
theorem settles_of_run {x : Attempt S Stop F A}
    (h : ∀ s, ∃ result s', R s s' ∧ x.run s = .ok (result, s')) :
    Settles R stuck (fun _ => x) where
  keeps := fun _ hrun => hrun
  ends := by
    intro s
    obtain ⟨result, s', hR, hrun⟩ := h s
    exact ⟨0, Or.inr ⟨result, s', hR, fun _ _ => hrun⟩⟩

theorem settles_pure (hrefl : ∀ s, R s s) (a : A) :
    Settles R stuck (fun _ => (pure a : Attempt S Stop F A)) :=
  settles_of_run (fun s => ⟨.ok a, s, hrefl s, rfl⟩)

theorem settles_fail (hrefl : ∀ s, R s s) (failure : F) :
    Settles R stuck (fun _ => (fail failure : Attempt S Stop F A)) :=
  settles_of_run (fun s => ⟨.error failure, s, hrefl s, rfl⟩)

theorem settles_ofOption (hrefl : ∀ s, R s s) (failure : F) (a : Option A) :
    Settles R stuck (fun _ => (ofOption failure a : Attempt S Stop F A)) := by
  cases a with
  | none => exact settles_fail hrefl failure
  | some a => exact settles_pure hrefl a

theorem Settles.mapFailure {G : Type} {f : F → G} (hx : Settles R stuck x) :
    Settles R stuck (fun n => Attempt.mapFailure f (x n)) := by
  have hmap : ∀ {n s result s'}, (x n).run s = .ok (result, s') →
      (Attempt.mapFailure f (x n)).run s = .ok (result.mapError f, s') := by
    intro n s result s' h
    unfold Attempt.mapFailure
    dsimp only
    rw [h]
    cases result <;> rfl
  constructor
  · intro n m s result hnm h
    cases hrun : (x n).run s with
    | error stop =>
      unfold Attempt.mapFailure at h
      dsimp only at h
      rw [hrun] at h
      cases h
    | ok out => exact (hmap (hx.keeps hnm hrun)).trans ((hmap hrun).symm.trans h)
  · intro s
    obtain ⟨bound, ⟨stop, hstuck, hstop⟩ | ⟨result, s', hR, hresult⟩⟩ := hx.ends s
    · refine ⟨bound, Or.inl ⟨stop, hstuck, fun n hn => ?_⟩⟩
      unfold Attempt.mapFailure
      dsimp only
      rw [hstop n hn]
    · exact ⟨bound, Or.inr ⟨_, s', hR, fun n hn => hmap (hresult n hn)⟩⟩

/-- **A sequence ends as its parts do**, and moves the state as they do, one after the other. -/
theorem Settles.bind (htrans : ∀ s s' s'', R s s' → R s' s'' → R s s'')
    {f : Nat → A → Attempt S Stop F B} (hx : Settles R stuck x)
    (hf : ∀ a, Settles R stuck (fun n => f n a)) : Settles R stuck (fun n => x n >>= f n) := by
  constructor
  · intro n m s result hnm h
    cases hrun : (x n).run s with
    | error stop =>
      rw [bind_of_error hrun] at h
      cases h
    | ok out =>
      obtain ⟨outcome, s₁⟩ := out
      have hlate := hx.keeps hnm hrun
      cases outcome with
      | error failure =>
        rw [bind_of_failure hrun] at h
        rw [bind_of_failure hlate]
        exact h
      | ok a =>
        rw [bind_of_ok hrun] at h
        rw [bind_of_ok hlate]
        exact (hf a).keeps hnm h
  · intro s
    obtain ⟨bound, ⟨stop, hstuck, hstop⟩ | ⟨outcome, s₁, hR, hrun⟩⟩ := hx.ends s
    · exact ⟨bound, Or.inl ⟨stop, hstuck, fun n hn => bind_of_error (hstop n hn)⟩⟩
    · cases outcome with
      | error failure =>
        exact ⟨bound, Or.inr ⟨.error failure, s₁, hR, fun n hn => bind_of_failure (hrun n hn)⟩⟩
      | ok a =>
        obtain ⟨bound', hend⟩ := (hf a).ends s₁
        refine ⟨max bound bound', ?_⟩
        have hseq : ∀ n ≥ max bound bound', (x n >>= f n).run s = (f n a).run s₁ :=
          fun n hn => bind_of_ok (hrun n (Nat.max_le.mp hn).1)
        rcases hend with ⟨stop, hstuck, hstop⟩ | ⟨result, s₂, hR', hresult⟩
        · exact Or.inl ⟨stop, hstuck, fun n hn =>
            (hseq n hn).trans (hstop n (Nat.max_le.mp hn).2)⟩
        · exact Or.inr ⟨result, s₂, htrans _ _ _ hR hR', fun n hn =>
            (hseq n hn).trans (hresult n (Nat.max_le.mp hn).2)⟩

end Settling

end Attempt

end Typokat.Lib
