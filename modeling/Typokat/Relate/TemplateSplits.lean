import Typokat.Lib.Splits
import Typokat.Relate.Rules
import Typokat.Types.Unions

/-!
# Template Patterns Split Strings (`typokat-relate/src/relate/relation/advanced.rs`)

What the scan of `match_literal_against_pattern` decides, said on splits of the string: what
it accepts splits by the texts with every gap accepted by its hole, and for wildcards it
accepts every string that splits.  Subsumption between templates, which only looks at the
outer texts, then never loses an accepted string.

## Main Results

- `matchLiteralAgainstPattern_sound` : an accepted string splits
- `matchLiteralAgainstPattern_complete` : a string that splits by wildcards is accepted
- `templateSubsumes_sound` : a subsuming template accepts what the other one accepts
-/

namespace Typokat.Relate

open Types List
open Lib (Splits)

/-! ## §1 Anchors -/

theorem stripStart_eq_some {start text rest : List Char} :
    stripStart start text = some rest ↔ text = start ++ rest := by
  unfold stripStart
  rw [Option.ite_none_right_eq_some, isPrefixOf_iff_prefix]
  constructor
  · rintro ⟨⟨behind, rfl⟩, hrest⟩
    rw [drop_left] at hrest
    rw [Option.some.inj hrest]
  · rintro rfl
    exact ⟨prefix_append _ _, by rw [drop_left]⟩

theorem stripEnd_eq_some {ending text before : List Char} :
    stripEnd ending text = some before ↔ text = before ++ ending := by
  unfold stripEnd
  rw [Option.ite_none_right_eq_some, isSuffixOf_iff_suffix]
  constructor
  · rintro ⟨⟨front, rfl⟩, hbefore⟩
    rw [length_append, Nat.add_sub_cancel, take_left] at hbefore
    rw [Option.some.inj hbefore]
  · rintro rfl
    refine ⟨suffix_append _ _, ?_⟩
    rw [length_append, Nat.add_sub_cancel, take_left]

theorem of_splitAtFirst {separator text before behind : List Char}
    (h : splitAtFirst separator text = some (before, behind)) :
    text = before ++ (separator ++ behind) := by
  induction text generalizing before behind with
  | nil =>
    simp only [splitAtFirst, Option.ite_none_right_eq_some, List.isEmpty_iff] at h
    obtain ⟨rfl, hparts⟩ := h
    cases hparts
    rfl
  | cons c rest ih =>
    unfold splitAtFirst at h
    split at h
    · rename_i hprefix
      obtain ⟨behind', hbehind⟩ := isPrefixOf_iff_prefix.mp hprefix
      cases h
      rw [← hbehind, drop_left, nil_append]
    · obtain ⟨⟨before', behind'⟩, hfound, hparts⟩ := Option.map_eq_some_iff.mp h
      cases hparts
      rw [ih hfound, cons_append]

/-- **The first occurrence** of a separator leaves at least what any other one leaves. -/
theorem splitAtFirst_of_eq {separator before behind : List Char} :
    ∃ before' more, splitAtFirst separator (before ++ (separator ++ behind))
      = some (before', more ++ behind) := by
  induction before with
  | nil =>
    cases hword : separator ++ behind with
    | nil =>
      obtain ⟨rfl, rfl⟩ := append_eq_nil_iff.mp hword
      exact ⟨[], [], rfl⟩
    | cons c rest =>
      have hprefix : separator.isPrefixOf (c :: rest) = true := by
        rw [← hword, isPrefixOf_iff_prefix]
        exact prefix_append _ _
      refine ⟨[], [], ?_⟩
      rw [nil_append, splitAtFirst, if_pos hprefix, ← hword, drop_left, nil_append]
  | cons c before ih =>
    rw [cons_append, splitAtFirst]
    split
    · -- an earlier occurrence ends before this one does
      rename_i hprefix
      have hlength : separator.length ≤ ((c :: before) ++ separator).length := by
        simp
        omega
      refine ⟨[], ((c :: before) ++ separator).drop separator.length, ?_⟩
      rw [← drop_append_of_le_length hlength]
      simp
    · obtain ⟨before', more, hfound⟩ := ih
      exact ⟨c :: before', more, by rw [hfound]; rfl⟩

/-! ## §2 Accepted strings split -/

section Matching

variable {text : NumberText} {store : Store} {fuel : Nat}

/-- A hole accepts a segment when enough fuel finds that it does. -/
def HoleAccepts (text : NumberText) (store : Store) (hole : TypeId) (segment : List Char) : Prop :=
  ∃ fuel, holeMatchesSegment text store fuel hole segment = some true

/-- A template accepts a string. -/
def Accepts (text : NumberText) (store : Store) (template : TemplateType) (s : String) : Prop :=
  ∃ fuel, matchLiteralAgainstPattern text store fuel s template = some true

/-- A template has one text more than holes: one in front of each hole and one behind the last. -/
def Alternates (template : TemplateType) : Prop :=
  template.texts.length = template.holes.length + 1

/-- The string is the texts of the template in order, each gap accepted by its hole. -/
def SplitsBy (text : NumberText) (store : Store) (template : TemplateType) (s : String) : Prop :=
  Splits (HoleAccepts text store) template.holes (template.texts.map String.toList) s.toList

theorem matchHoles_cons_cons (hole next : TypeId) (holes : List TypeId) (texts : List (List Char))
    (rest : List Char) :
    matchHoles text store fuel (hole :: next :: holes) texts rest
      = if (texts.headD []).isEmpty then some false
        else
          match splitAtFirst (texts.headD []) rest with
          | none => some false
          | some (segment, rest) =>
            (holeMatchesSegment text store fuel hole segment).bind (fun found =>
              if found then matchHoles text store fuel (next :: holes) texts.tail rest
              else some false) := rfl

/-- **The scan is sound**: behind the texts it consumed stand gaps that their holes accept. -/
theorem matchHoles_sound {hole : TypeId} {holes : List TypeId} {texts : List (List Char)}
    {rest : List Char} (hlength : texts.length = holes.length + 1)
    (h : matchHoles text store fuel (hole :: holes) texts rest = some true) :
    Splits (HoleAccepts text store) (hole :: holes) ([] :: texts) rest := by
  induction holes generalizing hole texts rest with
  | nil =>
    obtain ⟨last, rfl⟩ := length_eq_one_iff.mp hlength
    unfold matchHoles at h
    split at h
    · cases h
    · -- the last hole spans the remainder up to the last text
      rename_i segment hsegment
      rw [headD_cons, stripEnd_eq_some] at hsegment
      subst hsegment
      exact Splits.hole [] ⟨fuel, h⟩ (.last last)
  | cons next holes ih =>
    obtain ⟨separator, texts, rfl⟩ := exists_cons_of_length_eq_add_one hlength
    rw [matchHoles_cons_cons, headD_cons, tail_cons] at h
    split at h
    · cases h
    · split at h
      · cases h
      · rename_i segment behind hfound
        simp only [Option.bind_eq_some_iff] at h
        obtain ⟨found, hmatch, h⟩ := h
        cases found with
        | false => cases h
        | true =>
          rw [of_splitAtFirst hfound]
          apply Splits.hole [] ⟨fuel, hmatch⟩
          exact (ih (by simpa using hlength) h).prepend separator

variable {template : TemplateType} {s : String}

/-- What stands behind the first text, and the scan of it. -/
theorem matchLiteralAgainstPattern_eq_true (hholes : template.holes ≠ []) :
    matchLiteralAgainstPattern text store fuel s template = some true ↔
      ∃ rest, s.toList = (template.texts.map String.toList).headD [] ++ rest ∧
        matchHoles text store fuel template.holes (template.texts.map String.toList).tail rest
          = some true := by
  unfold matchLiteralAgainstPattern
  rw [if_neg (by simpa using hholes)]
  simp only [← stripStart_eq_some]
  cases stripStart ((template.texts.map String.toList).headD []) s.toList <;> simp

/-- The texts and holes of a template with a hole. -/
theorem Alternates.exists_cons (h : Alternates template) (hholes : template.holes ≠ []) :
    ∃ first texts hole holes, template.texts.map String.toList = first :: texts ∧
      template.holes = hole :: holes ∧ texts.length = holes.length + 1 := by
  obtain ⟨hole, holes, hcons⟩ := exists_cons_of_ne_nil hholes
  have hlength : (template.texts.map String.toList).length = (holes.length + 1) + 1 := by
    rw [length_map, h, hcons, length_cons]
  obtain ⟨first, texts, htexts⟩ := exists_cons_of_length_eq_add_one hlength
  refine ⟨first, texts, hole, holes, htexts, hcons, ?_⟩
  rw [htexts, length_cons] at hlength
  exact Nat.succ.inj hlength

/-- **An accepted string splits** by the template. -/
theorem matchLiteralAgainstPattern_sound (halternates : Alternates template)
    (hholes : template.holes ≠ []) (h : Accepts text store template s) :
    SplitsBy text store template s := by
  obtain ⟨fuel, h⟩ := h
  obtain ⟨rest, hs, hmatch⟩ := (matchLiteralAgainstPattern_eq_true hholes).mp h
  obtain ⟨first, texts, hole, holes, htexts, hcons, hlength⟩ := halternates.exists_cons hholes
  unfold SplitsBy
  rw [htexts, hcons] at hmatch ⊢
  rw [hs, htexts]
  exact (matchHoles_sound hlength hmatch).prepend first

/-! ## §3 Wildcards accept every split -/

/-- A `string` hole accepts everything at once. -/
theorem holeMatchesSegment_string {hole : TypeId} (hhole : store.intrinsicKind hole = some .string)
    (fuel : Nat) (segment : List Char) :
    holeMatchesSegment text store (fuel + 1) hole segment = some true := by
  simp [holeMatchesSegment, hhole]

/-- **The scan is complete for wildcards**: taking the first occurrence of a separator leaves
    the next gap longer, and a wildcard does not mind. -/
theorem matchHoles_complete {hole : TypeId} {holes : List TypeId} {texts : List (List Char)}
    {rest : List Char} (hstring : ∀ other ∈ hole :: holes, store.intrinsicKind other = some .string)
    (hinterior : ∀ separator ∈ texts.dropLast, separator ≠ [])
    (h : Splits (fun (_ : TypeId) (_ : List Char) => True) (hole :: holes) ([] :: texts) rest) :
    matchHoles text store (fuel + 1) (hole :: holes) texts rest = some true := by
  obtain ⟨_, _, gap, behind, hcons, rfl, -, hbehind⟩ := Splits.cons_iff.mp h
  cases hcons
  rw [nil_append]
  induction holes generalizing hole texts gap behind with
  | nil =>
    obtain rfl := Splits.nil_iff.mp hbehind
    have hend : stripEnd behind (gap ++ behind) = some gap := stripEnd_eq_some.mpr rfl
    simp only [matchHoles, headD_cons, hend]
    exact holeMatchesSegment_string (hstring hole mem_cons_self) fuel gap
  | cons next holes ih =>
    obtain ⟨separator, texts, gap', behind', rfl, rfl, -, hlater⟩ := Splits.cons_iff.mp hbehind
    have hnonempty : separator ≠ [] := by
      apply hinterior separator
      rw [dropLast_cons_of_ne_nil]
      · exact mem_cons_self
      · rintro rfl
        simpa using hlater.length_eq
    obtain ⟨first, more, hfound⟩ := @splitAtFirst_of_eq separator gap (gap' ++ behind')
    rw [matchHoles_cons_cons, headD_cons, tail_cons, if_neg (by simpa using hnonempty), hfound]
    simp only [holeMatchesSegment_string (hstring hole mem_cons_self), Option.bind_some, if_true]
    -- the next gap takes up what the first occurrence left over
    rw [← append_assoc]
    apply ih (fun other hother => hstring other (mem_cons_of_mem _ hother))
    · intro later hmem
      apply hinterior later
      rw [dropLast_cons_of_ne_nil]
      · exact mem_cons_of_mem _ hmem
      · rintro rfl
        cases hmem
    · exact Splits.hole [] trivial hlater
    · exact hlater

/-- **A string that splits by wildcards is accepted**, when no two of them touch. -/
theorem matchLiteralAgainstPattern_complete (hholes : template.holes ≠ [])
    (hstring : ∀ hole ∈ template.holes, store.intrinsicKind hole = some .string)
    (hinterior : ∀ separator ∈ template.texts.tail.dropLast, separator ≠ "")
    (h : SplitsBy text store template s) :
    matchLiteralAgainstPattern text store (fuel + 1) s template = some true := by
  obtain ⟨hole, holes, hcons⟩ := exists_cons_of_ne_nil hholes
  unfold SplitsBy at h
  rw [hcons] at h hstring
  obtain ⟨first, texts, -, -, htexts, -, -, -⟩ := Splits.cons_iff.mp h
  rw [htexts] at h
  obtain ⟨rest, hs, hrest⟩ := h.start
  refine (matchLiteralAgainstPattern_eq_true hholes).mpr ⟨rest, ?_, ?_⟩
  · rw [htexts]
    exact hs
  · rw [htexts, hcons]
    apply matchHoles_complete hstring ?_ (hrest.mono (fun _ _ _ _ => trivial))
    intro separator hmem
    have htail : texts = template.texts.tail.map String.toList := by
      rw [map_tail, htexts, tail_cons]
    rw [htail, ← map_dropLast] at hmem
    obtain ⟨interior, hinteriorMem, rfl⟩ := mem_map.mp hmem
    simpa using hinterior interior hinteriorMem

/-! ## §4 Subsumption -/

/-- A concrete pattern with a single wildcard accepts what starts and ends with its texts. -/
theorem accepts_single {hole : TypeId}
    {middle : List Char} (hholes : template.holes = [hole])
    (hhole : store.intrinsicKind hole = some .string)
    (hs : s.toList = (template.texts.headD "").toList ++
      (middle ++ ((template.texts[1]?).getD "").toList)) :
    matchLiteralAgainstPattern text store (fuel + 1) s template = some true := by
  refine (matchLiteralAgainstPattern_eq_true (by simp [hholes])).mpr
    ⟨middle ++ ((template.texts[1]?).getD "").toList, ?_, ?_⟩
  · rw [hs]
    cases template.texts <;> simp
  · have htexts : (template.texts.map String.toList).tail.headD []
        = ((template.texts[1]?).getD "").toList := by
      cases template.texts with
      | nil => simp
      | cons first texts => cases texts <;> simp
    have hend : stripEnd ((template.texts[1]?).getD "").toList
        (middle ++ ((template.texts[1]?).getD "").toList) = some middle := stripEnd_eq_some.mpr rfl
    rw [hholes]
    simp only [matchHoles, htexts, hend]
    exact holeMatchesSegment_string hhole fuel middle

/-- An accepted string starts with the first text and ends, behind it, with the last one. -/
theorem Accepts.outer (halternates : Alternates template) (hholes : template.holes ≠ [])
    (h : Accepts text store template s) :
    ∃ middle, s.toList = (template.texts.headD "").toList ++
      (middle ++ (template.texts.getLastD "").toList) := by
  have hsplits := matchLiteralAgainstPattern_sound halternates hholes h
  obtain ⟨first, texts, hole, holes, htexts, hcons, hlength⟩ := halternates.exists_cons hholes
  unfold SplitsBy at hsplits
  rw [htexts, hcons] at hsplits
  obtain ⟨middle, hmiddle⟩ := hsplits.outer
  obtain ⟨start, behind, hbehind, rfl, rfl⟩ := map_eq_cons_iff.mp htexts
  -- there is a last text behind the first one
  have hne : behind ≠ [] := by
    rintro rfl
    cases hlength
  obtain ⟨front, last, rfl⟩ := (eq_nil_or_concat behind).resolve_left hne
  refine ⟨middle, ?_⟩
  have hlast : (start :: (front ++ [last])).getLast? = some last := by
    rw [← cons_append, getLast?_concat]
  rw [hmiddle, hbehind]
  simp [hlast]

/-- **Subsumption keeps accepted strings**: the outer texts of the target are in the outer texts
    of the source, and its wildcard takes everything between them. -/
theorem templateSubsumes_sound {src tgt : TypeId} {source target : TemplateType}
    (hsource : store.templateType src = some source)
    (htarget : store.templateType tgt = some target) (hsources : Alternates source)
    (hholes : source.holes ≠ []) (hsubsumes : templateSubsumes store src tgt = true)
    (h : Accepts text store source s) :
    matchLiteralAgainstPattern text store (fuel + 1) s target = some true := by
  obtain ⟨middle, hmiddle⟩ := h.outer hsources hholes
  unfold templateSubsumes at hsubsumes
  rw [hsource, htarget] at hsubsumes
  dsimp only at hsubsumes
  split at hsubsumes
  · cases hsubsumes
  · split at hsubsumes
    · -- a bare wildcard accepts everything
      rename_i hbare
      simp only [isBareStringHole, Bool.and_eq_true, beq_iff_eq, length_eq_one_iff] at hbare
      obtain ⟨⟨⟨hole, hhole⟩, hstring⟩, htexts⟩ := hbare
      have hempty : ∀ index : Nat, ((target.texts[index]?).getD "").toList = [] := by
        intro index
        cases hget : target.texts[index]? with
        | none => rfl
        | some found =>
          have hfound := all_eq_true.mp htexts found (mem_of_getElem? hget)
          simpa using hfound
      apply @accepts_single _ _ _ _ _ _ s.toList hhole
      · simpa [hhole] using hstring
      · rw [headD_eq_head?_getD, head?_eq_getElem?, hempty, hempty]
        simp
    · split at hsubsumes
      · rename_i hole hhole
        simp only [Bool.and_eq_true, beq_iff_eq, isPrefixOf_iff_prefix,
          isSuffixOf_iff_suffix] at hsubsumes
        obtain ⟨⟨hstring, ⟨behind, hprefix⟩⟩, ⟨front, hsuffix⟩⟩ := hsubsumes
        apply @accepts_single _ _ _ _ _ _ (behind ++ (middle ++ front)) hhole hstring
        rw [hmiddle, ← hprefix, ← hsuffix]
        simp
      · cases hsubsumes

/-- The rule accepts a template into another one by subsumption only. -/
theorem templateSubsumes_of_rule {wk : WellKnown} {src tgt : TypeId} (hstring : tgt ≠ wk.string)
    (h : relateTemplateSource store wk src tgt = Rule.yes) :
    templateSubsumes store src tgt = true := by
  unfold relateTemplateSource at h
  rw [if_neg hstring] at h
  split at h
  · rename_i hsubsumes
    exact hsubsumes.2
  · cases h

end Matching

/-! ## §5 Templates of an interner -/

/-- **Template patterns are sound and consistent**: an accepted string splits by the texts with
    each gap accepted by its hole, wildcards with separators between them accept every string
    that splits, and a template that flows into another one accepts nothing more. -/
theorem template_patterns_consistent (text : NumberText) {structuralHash : StructuralKey → Nat}
    {σ : Interner} (hσ : σ.Reachable structuralHash) :
    (∀ template s, Alternates template → template.holes ≠ [] →
      Accepts text σ.store template s → SplitsBy text σ.store template s) ∧
    (∀ template s, Alternates template → template.holes ≠ [] →
      (∀ hole ∈ template.holes, σ.store.intrinsicKind hole = some .string) →
      (∀ separator ∈ template.texts.tail.dropLast, separator ≠ "") →
      SplitsBy text σ.store template s → Accepts text σ.store template s) ∧
    ∀ src tgt source target, σ.store.templateType src = some source →
      σ.store.templateType tgt = some target → Alternates source → source.holes ≠ [] →
      relateTemplateSource σ.store σ.wellKnown src tgt = Rule.yes →
      ∀ s, Accepts text σ.store source s → Accepts text σ.store target s := by
  refine ⟨fun template s halternates hholes h => ?_,
    fun template s _ hholes hstring hinterior h => ?_,
    fun src tgt source target hsource htarget hsources hholes hrule s h => ?_⟩
  · exact matchLiteralAgainstPattern_sound halternates hholes h
  · exact ⟨1, matchLiteralAgainstPattern_complete hholes hstring hinterior h⟩
  · -- the target is a template row, so that it is not `string`
    have hne : tgt ≠ σ.wellKnown.string := by
      rintro rfl
      have hrow := (σ.store.entry_eq_some_iff .templates _ target).mp htarget
      have hstring := hσ.knowsIntrinsics.row .string
      rw [show σ.wellKnown.id .string = σ.wellKnown.string from rfl, hrow] at hstring
      cases hstring
    exact ⟨1, templateSubsumes_sound hsource htarget hsources hholes
      (templateSubsumes_of_rule hne hrule) h⟩

/-- `` `a-${string}-c` `` flows into `` `a${string}c` ``; no text of a number is asked for. -/
theorem template_patterns_consistent_anchors :
    ∃ σ : Interner, σ.Reachable (fun _ => 0) ∧
      relateTemplateSource σ.store σ.wellKnown 19 20 = Rule.yes ∧
      Accepts ⟨fun _ => "", fun _ => "", fun _ => none⟩ σ.store ⟨["a-", "-c"], [9]⟩ "a-x-c" ∧
      Accepts ⟨fun _ => "", fun _ => "", fun _ => none⟩ σ.store ⟨["a", "c"], [9]⟩ "a-x-c" := by
  obtain ⟨reached, hrun, hsource, htarget, htag, hsubsumes, hstring⟩ := exists_of_run
    (r := runHistory (fun _ => 0) 0 [.internTemplate ⟨["a-", "-c"], [9]⟩,
      .internTemplate ⟨["a", "c"], [9]⟩] (Interner.withIntrinsics (fun _ => 0)))
    (P := fun reached => reached.2.store.templateType 19 = some ⟨["a-", "-c"], [9]⟩ ∧
      reached.2.store.templateType 20 = some ⟨["a", "c"], [9]⟩ ∧
      reached.2.store.tag 20 = some .template ∧
      templateSubsumes reached.2.store 19 20 = true ∧
      reached.2.store.intrinsicKind 9 = some .string) (by decide +kernel)
  have hreach : reached.2.Reachable (fun _ => 0) := ⟨0, _, reached.1, hrun⟩
  have hrule : relateTemplateSource reached.2.store reached.2.wellKnown 19 20 = Rule.yes := by
    simp [relateTemplateSource, htag, hsubsumes]
  have haccepts : Accepts ⟨fun _ => "", fun _ => "", fun _ => none⟩ reached.2.store
      ⟨["a-", "-c"], [9]⟩ "a-x-c" := by
    have hgap : HoleAccepts ⟨fun _ => "", fun _ => "", fun _ => none⟩ reached.2.store 9 ['x'] :=
      ⟨1, holeMatchesSegment_string hstring 0 ['x']⟩
    refine ⟨1, matchLiteralAgainstPattern_complete (by simp) (by simpa using hstring)
      (by simp) ?_⟩
    exact Splits.hole ['a', '-'] hgap (.last ['-', 'c'])
  exact ⟨reached.2, hreach, hrule, haccepts,
    (template_patterns_consistent _ hreach).2.2 19 20 _ _ hsource htarget rfl (by simp) hrule
      "a-x-c" haccepts⟩

end Typokat.Relate
