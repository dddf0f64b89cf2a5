import Typokat.Query.IdentityAnswers

/-!
# Runs of the Identity Comparison

A comparison on a fresh state answers, and its answer does not depend on the fuel.  It says
whether every pair that is reached passes its test.  Against alpha-equivalence that is too little:
the test of two parameters looks the left one up first and accepts a pair that a later binder
hides, and a type that occurs on both sides is accepted although its free parameters may be
bound differently.

## Main Results

- `identicalAttempt_answers` : the comparison answers
- `Answers.unique` : the fuel does not matter
- `identity_iff` : when the answers on both orders are alpha-equivalence
-/

namespace Typokat.Query

open Types Finset Option

variable {store : Store}

/-! ## §1 Finitely many keys -/

/-- The parameters that the functions of a store bind. -/
def boundParams (store : Store) : FxHashSet TypeParamId :=
  ((List.range store.len).flatMap store.nodeBinders).toFinset

/-- The pairs of parameters that binders can hold. -/
def binderPairs (store : Store) : FxHashSet (TypeParamId × TypeParamId) :=
  boundParams store ×ˢ boundParams store

/-- The keys that a comparison can visit. -/
def progressKeys (store : Store) : FxHashSet IdentityProgressKey :=
  Finset.range store.len ×ˢ Finset.range store.len ×ˢ
    ((binderPairs store).powerset ×ˢ (binderPairs store).powerset).image
      (fun sets => ⟨sets.1, sets.2⟩)

/-- Pairs without planned rows, under binders of the store. -/
def StorePair (store : Store) (n : AlphaPair) : Prop :=
  UnplannedPair store n ∧ ∀ pair ∈ n.2.2, pair ∈ binderPairs store

theorem mem_of_boundTo {binders : AlphaBinders} {param bound : TypeParamId}
    (h : binders.boundTo param = some bound) : (param, bound) ∈ binders := by
  unfold AlphaBinders.boundTo at h
  obtain ⟨pair, hfind, rfl⟩ := map_eq_some_iff.mp h
  have hparam := List.find?_some hfind
  rw [beq_iff_eq] at hparam
  rw [← hparam]
  exact List.mem_of_find?_eq_some hfind

theorem mem_binderPairs_swap {pair : TypeParamId × TypeParamId} (h : pair ∈ binderPairs store) :
    pair.swap ∈ binderPairs store := by
  rw [binderPairs, mem_product] at h ⊢
  exact ⟨h.2, h.1⟩

theorem lt_len_of_row {ty : TypeId} {row : Row} (h : store.row ty = some row) :
    ty < store.len := by
  rw [← Store.tag_isSome_iff, Store.tag_of_row h]
  rfl

theorem mem_boundParams {ty : TypeId} {row : Row} (hrow : store.row ty = some row)
    {param : TypeParamId} (h : param ∈ row.binders) : param ∈ boundParams store := by
  rw [boundParams, List.mem_toFinset, List.mem_flatMap]
  refine ⟨ty, List.mem_range.mpr (lt_len_of_row hrow), ?_⟩
  rw [Store.nodeBinders, hrow]
  exact h

theorem StorePair.key_mem {n : AlphaPair} (h : StorePair store n) :
    (n.1, n.2.1, alphaBinderKey n.2.2) ∈ progressKeys store := by
  obtain ⟨leftRow, hleft, _⟩ := h.1.1 _ .refl
  obtain ⟨rightRow, hright, _⟩ := h.1.2 _ .refl
  rw [progressKeys, mem_product, mem_product, mem_range, mem_range]
  refine ⟨lt_len_of_row hleft, lt_len_of_row hright, mem_image.mpr ⟨(_, _), ?_, rfl⟩⟩
  rw [mem_product, mem_powerset, mem_powerset]
  constructor
  · intro pair hpair
    exact h.2 pair (mem_of_boundTo (mem_innermostPairs.mp hpair).2)
  · intro pair hpair
    obtain ⟨other, hother, hswap⟩ := List.mem_map.mp (mem_of_boundTo (mem_innermostPairs.mp hpair).2)
    have hswapped := mem_binderPairs_swap (h.2 other hother)
    rw [hswap] at hswapped
    exact hswapped

theorem StorePair.descends {n m : AlphaPair} (h : StorePair store n) (hstep : Descends store n m) :
    StorePair store m := by
  refine ⟨h.1.reached (.single hstep), ?_⟩
  obtain ⟨leftRow, rightRow, _, hleft, hright, _, _, _, hbinders⟩ := hstep
  rw [hbinders]
  intro pair hpair
  cases leftRow with
  | function left =>
    cases rightRow with
    | function right =>
      rw [rowBinders, List.mem_append, List.mem_reverse] at hpair
      rcases hpair with hinner | houter
      · obtain ⟨a, ha, b, hb, rfl⟩ := mem_zipWith hinner
        rw [binderPairs, mem_product]
        exact ⟨mem_boundParams hleft (List.mem_map_of_mem ha),
          mem_boundParams hright (List.mem_map_of_mem hb)⟩
      · exact h.2 pair houter
    | _ => exact h.2 pair hpair
  | _ => exact h.2 pair hpair

theorem confined_storePair : Confined store (progressKeys store) (StorePair store) where
  plain _ h := h.1
  key_mem _ h := h.key_mem
  descends _ _ h hstep := h.descends hstep

/-- **A comparison on a fresh state answers, and says whether all the pairs it reaches pass.** -/
theorem identicalAttempt_answers {left right : TypeId} (hleft : Unplanned store left)
    (hright : Unplanned store right) :
    ∃ fuel same after, identicalAttempt store fuel left right [] {} = some (same, after) ∧
      (same = true ↔ AllPass store (left, right, [])) := by
  have hready : Ready store (progressKeys store) ∅ (fun _ => False) {} := by
    refine ⟨subset_rfl, empty_subset _, ?_, ?_⟩
    · intro key hkey
      exact absurd hkey (notMem_empty _)
    · intro key progress hlookup
      cases hlookup
  obtain ⟨same, after, hresult, _, _, htrue, hfalse⟩ :=
    identicalAttempt_outcome confined_storePair (Nat.lt_succ_self _)
      (show StorePair store (left, right, []) from ⟨⟨hleft, hright⟩, by simp⟩) hready
  refine ⟨_, same, after, hresult, ?_⟩
  constructor
  · intro hsame
    obtain ⟨hinvariant, hpassed⟩ := htrue hsame
    -- no call is running any more
    exact hpassed.allPass (fun key hkey => (hinvariant.expanded key hkey).resolve_left not_false)
  · intro hall
    cases same with
    | true => rfl
    | false => exact absurd hall (hfalse rfl)

/-! ## §2 Fuel -/

/-- Where `f` answers, `g` gives the same answer. -/
def Answered {A B : Type} (f g : A → Option B) : Prop := ∀ x y, f x = some y → g x = some y

theorem bind_answered {A B : Type} {x x' : Option A} {f g : A → Option B} {y : B}
    (hx : ∀ a, x = some a → x' = some a) (hf : Answered f g) (h : x.bind f = some y) :
    x'.bind g = some y := by
  obtain ⟨a, ha, hy⟩ := bind_eq_some_iff.mp h
  rw [hx a ha]
  exact hf a y hy

theorem ite_answered {A : Type} {c : Prop} [Decidable c] {x x' z z' : Option A} {y : A}
    (hx : x = some y → x' = some y) (hz : z = some y → z' = some y)
    (h : (if c then x else z) = some y) : (if c then x' else z') = some y := by
  split at h
  · rename_i hc
    rw [if_pos hc]
    exact hx h
  · rename_i hc
    rw [if_neg hc]
    exact hz h

section Types

variable {f g : TypeId → TypeId → IdentityState → Option (Bool × IdentityState)}
  (h : ∀ left right, Answered (f left right) (g left right))
include h

theorem identicalTypes_answered (types : List (Option TypeId × Option TypeId)) :
    Answered (identicalTypes f types) (identicalTypes g types) := by
  induction types with
  | nil => exact fun _ _ heq => heq
  | cons pair rest ih =>
    intro state result hresult
    obtain ⟨_ | left, _ | right⟩ := pair
    · exact ih state result hresult
    · exact hresult
    · exact hresult
    · apply bind_answered (h left right state) _ hresult
      exact fun _ _ => ite_answered (ih _ _) id

theorem identicalStep_answered (step : Comparison) :
    Answered (identicalStep f step) (identicalStep g step) := by
  intro state result hresult
  exact ite_answered (identicalTypes_answered h _ _ _) id hresult

end Types

theorem identicalSteps_answered {f g : Comparison → IdentityState → Option (Bool × IdentityState)}
    (h : ∀ step, Answered (f step) (g step)) (steps : List Comparison) :
    Answered (identicalSteps f steps) (identicalSteps g steps) := by
  induction steps with
  | nil => exact fun _ _ heq => heq
  | cons step rest ih =>
    intro state result hresult
    apply bind_answered (h step state) _ hresult
    exact fun _ _ => ite_answered (ih _ _) id

section Runs

variable {f g : Nat → IdentityState → Option (Bool × IdentityState)}
  (h : ∀ index, Answered (f index) (g index))
include h

theorem recheckSteps_answered {indexes : List Nat} {progress : IdentitySequenceProgress} :
    Answered (recheckSteps f indexes progress) (recheckSteps g indexes progress) := by
  induction indexes generalizing progress with
  | nil => exact fun _ _ heq => heq
  | cons index rest ih =>
    intro state result hresult
    apply bind_answered (h index state) _ hresult
    exact fun _ _ => ite_answered (ih _ _) id

theorem advanceSteps_answered {remaining : Nat} {progress : IdentitySequenceProgress} :
    Answered (advanceSteps f remaining progress) (advanceSteps g remaining progress) := by
  induction remaining generalizing progress with
  | zero => exact fun _ _ heq => heq
  | succ remaining ih =>
    intro state result hresult
    apply bind_answered (h progress.cursor state) _ hresult
    exact fun _ _ => ite_answered (ih _ _) id

theorem identicalSequence_answered (key : IdentityProgressKey) (len : Nat) :
    Answered (identicalSequence f key len) (identicalSequence g key len) := by
  intro state result hresult
  unfold identicalSequence at hresult ⊢
  apply bind_answered (recheckSteps_answered h state) _ hresult
  intro after result'
  apply ite_answered _ id
  intro hrest
  obtain ⟨advanced, hadvanced, hkeep⟩ := map_eq_some_iff.mp hrest
  rw [advanceSteps_answered h _ _ hadvanced, map_some, hkeep]

end Runs

theorem identicalAttempt_succ {fuel : Nat} {left right : TypeId} {binders : AlphaBinders} :
    Answered (identicalAttempt store fuel left right binders)
      (identicalAttempt store (fuel + 1) left right binders) := by
  induction fuel generalizing left right binders with
  | zero =>
    intro state result h
    cases h
  | succ fuel ih =>
    intro state result h
    have hstep : ∀ binders, ∀ step, Answered
        (identicalStep (fun left right state =>
          identicalAttempt store fuel left right binders state) step)
        (identicalStep (fun left right state =>
          identicalAttempt store (fuel + 1) left right binders state) step) :=
      fun binders => identicalStep_answered (fun left right => ih)
    rw [identicalAttempt] at h ⊢
    split at h
    · exact h
    · dsimp only at h ⊢
      refine ite_answered id (ite_answered id (ite_answered id ?_)) h
      intro h
      split at h
      · exact h
      · refine ite_answered ?_ (identicalSteps_answered (hstep _) _ _ _) h
        apply identicalSequence_answered
        intro index state result hat
        obtain ⟨step, hsome, hcompare⟩ := bind_eq_some_iff.mp hat
        unfold identicalAt
        rw [hsome]
        exact hstep _ step _ _ hcompare
    · exact h

/-- More fuel changes no answer. -/
theorem identicalAttempt_mono {fuel more : Nat} (hle : fuel ≤ more) {left right : TypeId}
    {binders : AlphaBinders} :
    Answered (identicalAttempt store fuel left right binders)
      (identicalAttempt store more left right binders) := by
  induction hle with
  | refl => exact fun _ _ h => h
  | step _ ih => exact fun state result h => identicalAttempt_succ _ _ (ih _ _ h)

/-- What the comparison behind the memo answers, with the memo it leaves. -/
def Answers (store : Store) (left right : TypeId)
    (completed : FxHashMap CompletedIdentityKey Bool)
    (answer : Bool × FxHashMap CompletedIdentityKey Bool) : Prop :=
  ∃ fuel, isIdentical store fuel left right completed = some answer

theorem isIdentical_mono {fuel more : Nat} (hle : fuel ≤ more) {left right : TypeId} :
    Answered (isIdentical store fuel left right) (isIdentical store more left right) := by
  intro completed answer h
  unfold isIdentical at h ⊢
  split at h
  · rename_i heq
    rw [if_pos heq]
    exact h
  · rename_i heq
    rw [if_neg heq]
    split at h
    · exact h
    · obtain ⟨result, hresult, hanswer⟩ := map_eq_some_iff.mp h
      rw [identicalAttempt_mono hle _ _ hresult]
      exact congrArg some hanswer

/-- **There is one answer.** -/
theorem Answers.unique {left right : TypeId} {completed : FxHashMap CompletedIdentityKey Bool}
    {answer answer' : Bool × FxHashMap CompletedIdentityKey Bool}
    (h : Answers store left right completed answer)
    (h' : Answers store left right completed answer') : answer = answer' := by
  obtain ⟨fuel, hfuel⟩ := h
  obtain ⟨fuel', hfuel'⟩ := h'
  have hmore := isIdentical_mono (Nat.le_max_left fuel fuel') _ _ hfuel
  have hmore' := isIdentical_mono (Nat.le_max_right fuel fuel') _ _ hfuel'
  rw [hmore, some.injEq] at hmore'
  exact hmore'

/-! ## §3 The answer and alpha-equivalence -/

theorem descends_ne {n m : AlphaPair} (h : Descends store n m) : n.1 ≠ n.2.1 := by
  obtain ⟨_, _, _, _, _, hne, _⟩ := h
  exact hne

/-- A type beside itself passes outside of all signatures. -/
theorem allPass_self {ty : TypeId} (hty : Unplanned store ty) : AllPass store (ty, ty, []) := by
  intro m hreach
  rcases Relation.ReflTransGen.cases_head hreach with rfl | ⟨n, hstep, _⟩
  · obtain ⟨row, hrow, _⟩ := hty _ .refl
    by_cases hparam : ∃ p, row = .typeParam p
    · obtain ⟨p, rfl⟩ := hparam
      refine .param hrow hrow ?_
      simp [alphaTypeParamsIdentical, AlphaBinders.boundTo, AlphaBinders.flip]
    · exact .equal hrow (fun p hp => hparam ⟨p, hp⟩)
  · exact absurd rfl (descends_ne hstep)

theorem completedIdentityKey_comm (left right : TypeId) :
    completedIdentityKey left right = completedIdentityKey right left := by
  unfold completedIdentityKey
  by_cases hle : left ≤ right
  · by_cases hge : right ≤ left
    · rw [if_pos hle, if_pos hge, le_antisymm hle hge]
    · rw [if_pos hle, if_neg hge]
  · rw [if_neg hle, if_pos (le_of_not_ge hle)]

/-- The comparison answers on a fresh memo, and the memo answers the same for both orders. -/
theorem answers_iff_allPass {left right : TypeId} (hleft : Unplanned store left)
    (hright : Unplanned store right) :
    ∃ same completed, Answers store left right ∅ (same, completed) ∧
      (same = true ↔ AllPass store (left, right, [])) ∧
      Answers store right left completed (same, completed) := by
  by_cases heq : left = right
  · rw [← heq]
    refine ⟨true, ∅, ⟨0, ?_⟩, ⟨fun _ => allPass_self hleft, fun _ => rfl⟩, ⟨0, ?_⟩⟩
    all_goals
      unfold isIdentical
      rw [if_pos (by simp)]
  · obtain ⟨fuel, same, after, hresult, hiff⟩ := identicalAttempt_answers hleft hright
    refine ⟨same, (∅ : FxHashMap CompletedIdentityKey Bool).insert
      (completedIdentityKey left right) same, ⟨fuel, ?_⟩, hiff, ⟨0, ?_⟩⟩
    · unfold isIdentical
      rw [if_neg (by simpa using heq), Finmap.lookup_empty, hresult]
      rfl
    · unfold isIdentical
      rw [if_neg (by simpa using Ne.symm heq), completedIdentityKey_comm right left,
        Finmap.lookup_insert]

/-- Where every pair that is reached passes its test, the binders are alike also where the test
    does not look. -/
def TestsSuffice (store : Store) (left right : TypeId) : Prop :=
  AllPass store (left, right, []) →
    ∀ m, Reached store (left, right, []) m → BindsAlike store m

theorem allPass_iff_alphaEquivalent {left right : TypeId} (hleft : Unplanned store left)
    (hright : Unplanned store right) :
    (AllPass store (left, right, []) ↔ AlphaEquivalent store left right []) ↔
      TestsSuffice store left right := by
  rw [alphaEquivalent_iff_reached ⟨hleft, hright⟩]
  constructor
  · intro h hall m hreach
    exact (h.mp hall m hreach).2
  · intro h
    constructor
    · intro hall m hreach
      exact ⟨hall m hreach, h hall m hreach⟩
    · intro hall m hreach
      exact (hall m hreach).1

/-- **The comparison is alpha-equivalence, in both orders and behind the unordered memo, exactly
    when its tests suffice.** -/
theorem identity_iff {left right : TypeId} (hleft : Unplanned store left)
    (hright : Unplanned store right) :
    (∃ same completed same' completed',
      Answers store left right ∅ (same, completed) ∧
      Answers store right left ∅ (same', completed') ∧
      (same = true ↔ AlphaEquivalent store left right []) ∧
      (same' = true ↔ AlphaEquivalent store right left []) ∧ same = same' ∧
      Answers store right left completed (same', completed) ∧
      Answers store left right completed' (same, completed')) ↔
    TestsSuffice store left right ∧ TestsSuffice store right left := by
  obtain ⟨same, completed, hanswer, hiff, hmemo⟩ := answers_iff_allPass hleft hright
  obtain ⟨same', completed', hanswer', hiff', hmemo'⟩ := answers_iff_allPass hright hleft
  rw [← allPass_iff_alphaEquivalent hleft hright, ← allPass_iff_alphaEquivalent hright hleft]
  constructor
  · intro h
    obtain ⟨other, _, other', _, hother, hother', hequiv, hequiv', _⟩ := h
    -- the answers are the ones that were found
    rw [(Prod.mk.inj (hother.unique hanswer)).1, hiff] at hequiv
    rw [(Prod.mk.inj (hother'.unique hanswer')).1, hiff'] at hequiv'
    exact ⟨hequiv, hequiv'⟩
  · intro h
    have hequiv := hiff.trans h.1
    have hequiv' := hiff'.trans h.2
    have hsame : same = same' := by
      rw [Bool.eq_iff_iff, hequiv, hequiv']
      exact ⟨AlphaEquivalent.symm, AlphaEquivalent.symm⟩
    refine ⟨same, completed, same', completed', hanswer, hanswer', hequiv, hequiv', hsame, ?_, ?_⟩
    · rw [← hsame]
      exact hmemo
    · rw [hsame]
      exact hmemo'

/-- Whether no row of a store needs planning. -/
def allUnplanned (store : Store) : Bool :=
  (List.range store.len).all (fun ty => (store.row ty).any (fun row =>
    unplanned row && row.applyChildren.all (fun child => decide (child < store.len))))

theorem unplanned_of_all (h : allUnplanned store = true) {ty : TypeId} (hty : ty < store.len) :
    Unplanned store ty := by
  have hrow : ∀ node, node < store.len → ∃ row, store.row node = some row ∧
      unplanned row = true ∧ ∀ child ∈ row.applyChildren, child < store.len := by
    intro node hnode
    have hnode := List.all_eq_true.mp h node (List.mem_range.mpr hnode)
    cases hrow : store.row node with
    | none =>
      rw [hrow] at hnode
      cases hnode
    | some row =>
      rw [hrow, any_some, Bool.and_eq_true, List.all_eq_true] at hnode
      exact ⟨row, rfl, hnode.1, fun child hchild => of_decide_eq_true (hnode.2 child hchild)⟩
  intro node hreach
  have hlt : node < store.len := by
    induction hreach with
    | refl => exact hty
    | tail _ hedge ih =>
      obtain ⟨row, hsome, hchild⟩ := hedge
      obtain ⟨row', hsome', _, hlt⟩ := hrow _ ih
      rw [hsome, some.injEq] at hsome'
      rw [hsome'] at hchild
      exact hlt _ hchild
  obtain ⟨row, hsome, hplain, _⟩ := hrow node hlt
  exact ⟨row, hsome, hplain⟩

/-- `<A>(x: <B>(x: number, c: A) => void, c: A) => void` as 23, and as 24 the alias
    `G<X> = <C>(x: X, c: C) => void` applied twice, `G<G<number>>`. -/
theorem nested_aliases_made : ∃ σ : Interner, σ.Reachable (fun _ => 0) ∧
    Unplanned σ.store 21 ∧ Unplanned σ.store 22 ∧ Unplanned σ.store 23 ∧ Unplanned σ.store 24 ∧
    (∃ completed, Answers σ.store 23 24 ∅ (true, completed)) ∧
    ∃ completed, Answers σ.store 24 23 ∅ (false, completed) := by
  obtain ⟨reached, hrun, hlen, hall, hforward, hbackward⟩ := exists_of_run
    (r := runHistory (fun _ => 0) 0
      [.internTypeParam 0 "A", .internTypeParam 2 "C",
        .internFunction { typeParams := [⟨1, none, none⟩]
                          params := [⟨"x", 8, false, false, false⟩, ⟨"c", 19, false, false, false⟩]
                          ret := 4 },
        .internFunction { typeParams := [⟨2, none, none⟩]
                          params := [⟨"x", 8, false, false, false⟩, ⟨"c", 20, false, false, false⟩]
                          ret := 4 },
        .internFunction { typeParams := [⟨0, none, none⟩]
                          params := [⟨"x", 21, false, false, false⟩, ⟨"c", 19, false, false, false⟩]
                          ret := 4 },
        .internFunction { typeParams := [⟨2, none, none⟩]
                          params := [⟨"x", 22, false, false, false⟩, ⟨"c", 20, false, false, false⟩]
                          ret := 4 }]
      (Interner.withIntrinsics (fun _ => 0)))
    (P := fun reached => reached.2.store.len = 25 ∧ allUnplanned reached.2.store = true ∧
      (isIdentical reached.2.store 9 23 24 ∅).map Prod.fst = some true ∧
      (isIdentical reached.2.store 9 24 23 ∅).map Prod.fst = some false) (by decide +kernel)
  have hplain : ∀ ty < 25, Unplanned reached.2.store ty := by
    intro ty hty
    apply unplanned_of_all hall
    rw [hlen]
    exact hty
  obtain ⟨⟨_, completed⟩, hforward, rfl⟩ := map_eq_some_iff.mp hforward
  obtain ⟨⟨_, completed'⟩, hbackward, rfl⟩ := map_eq_some_iff.mp hbackward
  exact ⟨reached.2, ⟨0, _, reached.1, hrun⟩, hplain 21 (by simp), hplain 22 (by simp),
    hplain 23 (by simp), hplain 24 (by simp), ⟨completed, 9, hforward⟩,
    ⟨completed', 9, hbackward⟩⟩

/-- The comparison pairs `A` with `C` although `C` is bound again, but not `C` with `A`. -/
theorem nested_aliases_asymmetric : ∃ σ : Interner, σ.Reachable (fun _ => 0) ∧
    Unplanned σ.store 23 ∧ Unplanned σ.store 24 ∧
    ¬ ∃ same completed same' completed',
      Answers σ.store 23 24 ∅ (same, completed) ∧ Answers σ.store 24 23 ∅ (same', completed') ∧
      (same = true ↔ AlphaEquivalent σ.store 23 24 []) ∧
      (same' = true ↔ AlphaEquivalent σ.store 24 23 []) ∧ same = same' ∧
      Answers σ.store 24 23 completed (same', completed) ∧
      Answers σ.store 23 24 completed' (same, completed') := by
  obtain ⟨σ, hσ, -, -, hleft, hright, ⟨completed, htrue⟩, completed', hfalse⟩ :=
    nested_aliases_made
  refine ⟨σ, hσ, hleft, hright, ?_⟩
  intro h
  obtain ⟨same, _, same', _, hanswer, hanswer', -, -, heq, -⟩ := h
  have hsame := (Prod.mk.inj (hanswer.unique htrue)).1
  have hsame' := (Prod.mk.inj (hanswer'.unique hfalse)).1
  rw [hsame, hsame'] at heq
  cases heq

/-- The two sides for `<B>(x: number, c: A) => void` and `<C>(x: number, c: C) => void`. -/
theorem identity_iff_signatures : ∃ σ : Interner, σ.Reachable (fun _ => 0) ∧
    ((∃ same completed same' completed',
      Answers σ.store 21 22 ∅ (same, completed) ∧ Answers σ.store 22 21 ∅ (same', completed') ∧
      (same = true ↔ AlphaEquivalent σ.store 21 22 []) ∧
      (same' = true ↔ AlphaEquivalent σ.store 22 21 []) ∧ same = same' ∧
      Answers σ.store 22 21 completed (same', completed) ∧
      Answers σ.store 21 22 completed' (same, completed')) ↔
    TestsSuffice σ.store 21 22 ∧ TestsSuffice σ.store 22 21) := by
  obtain ⟨σ, hσ, hleft, hright, -⟩ := nested_aliases_made
  exact ⟨σ, hσ, identity_iff hleft hright⟩

end Typokat.Query
