import Typokat.Check.Keyof
import Typokat.Relate.TemplateSplits

/-!
# Template Inference (`typokat-check/src/check/infer/context.rs`, `infer/helpers.rs`)

`infer_from_template` scans a string literal by a template and captures a segment for each
hole that is a type parameter.  The scanner is a second copy of the one that the relation
uses; here both are reduced to the one split that the texts determine, so that what is
captured can be put back in place of the parameters.

## Main Definitions

- `segmentMatchesHole`, `captureHoles`, `inferFromTemplate` : the copy in the checker
- `replaceParams` : the holes with the captured literals in place of the parameters

## Main Results

- `segmentMatchesHole_eq` : the two hole matchers are one function
- `captureHoles_iff`, `matchHoles_iff` : both scans follow `scanSegments`
- `template_inference_agrees` : inference and assignability agree
-/

namespace Typokat.Check

open Types Option List Interner
open Relate

/-! ## §1 The scanner of the checker -/

/-- The loop of `is_decimal_numeric`; `start` says that no character has been read. -/
def decimalChars : List Char → (start seenDot : Bool) → Bool
  | [], _, _ => true
  | c :: rest, start, seenDot =>
    if c == '.' then
      if seenDot || start || rest.isEmpty then false
      else decimalChars rest false true
    else if !c.isDigit then false
    else decimalChars rest false seenDot

/-- `is_decimal_numeric`. -/
def isDecimalNumeric (text : NumberText) (s : List Char) : Bool :=
  if s.isEmpty then false
  else if !decimalChars s true false then false
  else
    match text.parse (String.ofList s) with
    | some n => text.decimalNumberToString n == String.ofList s
    | none => false

section Scan

variable (text : NumberText) (store : Store)

/-- `segment_matches_hole`; `none` when unions nest deeper than `fuel`. -/
def segmentMatchesHole : Nat → TypeId → List Char → Option Bool
  | 0, _, _ => none
  | fuel + 1, hole, seg =>
    match store.intrinsicKind hole with
    | some .string => some true
    | some .number => some (isDecimalNumeric text seg)
    | _ =>
      match store.literalValue hole with
      | some (.string s) => some (s.toList == seg)
      | some (.number n) => some ((text.numberToString n).toList == seg)
      | some (.boolean b) => some ((if b then "true" else "false").toList == seg)
      | some (.wellKnownSymbol _) => some false
      | none =>
        match store.unionMembers hole with
        | some members =>
          members.foldr (fun member rest =>
            (segmentMatchesHole fuel member seg).bind (fun found =>
              if found then some true else rest)) (some false)
        | none => some false

/-- A capture: the parameter of a hole and the text of its segment. -/
abbrev Capture := TypeParamId × List Char

/-- One hole of the scan: a parameter captures its segment, any other hole has to match it. -/
def captureHole (fuel : Nat) (hole : TypeId) (seg : List Char) : Option (Option (List Capture)) :=
  if store.tag hole = some .typeParam then
    some (some ((store.typeParam hole).toList.map (fun param => (param.id, seg))))
  else
    (segmentMatchesHole text store fuel hole seg).map (fun found =>
      if found then some [] else none)

/-- The loop of `infer_from_template`, with the texts behind the holes.  The inner option is the
    early return; a last hole leaves no rest. -/
def captureHoles (fuel : Nat) :
    List TypeId → List (List Char) → List Char → Option (Option (List Capture))
  | [], _, rest => some (if rest.isEmpty then some [] else none)
  | [hole], texts, rest =>
    match stripEnd (texts.headD []) rest with
    | none => some none
    | some seg => captureHole text store fuel hole seg
  | hole :: holes, texts, rest =>
    if (texts.headD []).isEmpty then some none
    else
      match splitAtFirst (texts.headD []) rest with
      | none => some none
      | some (seg, rest) =>
        (captureHole text store fuel hole seg).bind (fun
          | none => some none
          | some captures =>
            (captureHoles fuel holes texts.tail rest).map (fun later =>
              later.map (fun later => captures ++ later)))

/-- The whole scan, behind the check that there are holes. -/
def captureTemplate (fuel : Nat) (s : String) (template : TemplateType) :
    Option (Option (List Capture)) :=
  match stripStart ((template.texts.map String.toList).headD []) s.toList with
  | none => some none
  | some rest =>
    captureHoles text store fuel template.holes (template.texts.map String.toList).tail rest

end Scan

/-- `Candidates`. -/
abbrev Candidates := FxHashMap TypeParamId (List TypeId)

/-- What has been collected for a parameter. -/
def Candidates.of (candidates : Candidates) (id : TypeParamId) : List TypeId :=
  (candidates.lookup id).getD []

section Record

variable (structuralHash : StructuralKey → Nat) (text : NumberText)

/-- Intern each captured segment and push it: `candidates.entry(id).or_default().push(lit)`. -/
def recordCaptures : List Capture → Interner → Candidates → Interner × Candidates
  | [], interner, candidates => (interner, candidates)
  | (id, seg) :: captures, interner, candidates =>
    let (lit, interner) := interner.internLiteral structuralHash (.string (String.ofList seg))
    recordCaptures captures interner (candidates.insert id (candidates.of id ++ [lit]))

/-- `infer_from_template`. -/
def inferFromTemplate (fuel : Nat) (interner : Interner) (source target : TypeId)
    (candidates : Candidates) : Option (Interner × Candidates) :=
  match interner.store.literalValue source with
  | some (.string s) =>
    match interner.store.templateType target with
    | none => some (interner, candidates)
    | some template =>
      if template.holes.isEmpty then some (interner, candidates)
      else
        (captureTemplate text interner.store fuel s template).map (fun
          | none => (interner, candidates)
          | some captures => recordCaptures structuralHash captures interner candidates)
  | _ => some (interner, candidates)

/-- The holes with every type parameter replaced by the union of what it captured. -/
def replaceParams (captured : TypeParamId → List TypeId) (interner : Interner)
    (holes : List TypeId) : Option (List TypeId × Interner) :=
  Lib.mapThreaded (fun interner hole =>
    match interner.store.typeParam hole with
    | some param => interner.union structuralHash (captured param.id)
    | none => some (hole, interner)) interner holes

end Record

/-! ## §2 One matcher, written twice -/

section Matchers

variable {text : NumberText} {store : Store}

theorem decimalChars_eq (s : List Char) (start seenDot : Bool) :
    decimalChars s start seenDot = isDecimal s start seenDot := by
  induction s generalizing start seenDot with
  | nil => rfl
  | cons c rest ih =>
    unfold decimalChars isDecimal
    rw [ih, ih]
    split
    · cases seenDot <;> cases start <;> cases rest.isEmpty <;> simp
    · cases c.isDigit <;> simp

theorem isDecimalNumeric_eq (s : List Char) : isDecimalNumeric text s = isNumericSegment text s := by
  unfold isDecimalNumeric isNumericSegment
  rw [decimalChars_eq]
  cases text.parse (String.ofList s) <;> cases s.isEmpty <;> cases isDecimal s true false <;> simp

/-- **The two hole matchers are one function.** -/
theorem segmentMatchesHole_eq (fuel : Nat) (hole : TypeId) (seg : List Char) :
    segmentMatchesHole text store fuel hole seg = holeMatchesSegment text store fuel hole seg := by
  induction fuel generalizing hole with
  | zero => rfl
  | succ fuel ih =>
    unfold segmentMatchesHole holeMatchesSegment
    rw [isDecimalNumeric_eq]
    simp only [ih]
    -- the literals differ in where a symbol is refused
    cases store.intrinsicKind hole with
    | none =>
      cases store.literalValue hole with
      | none => rfl
      | some value => cases value <;> simp [literalSegment]
    | some kind =>
      cases kind <;> try rfl
      all_goals
        cases store.literalValue hole with
        | none => rfl
        | some value => cases value <;> simp [literalSegment]

end Matchers

/-! ## §3 One split, whatever the holes -/

/-- The segments that the texts behind a number of holes cut out of a string. -/
def scanSegments : Nat → List (List Char) → List Char → Option (List (List Char))
  | 0, _, rest => if rest.isEmpty then some [] else none
  | 1, texts, rest => (stripEnd (texts.headD []) rest).map (fun seg => [seg])
  | holes + 2, texts, rest =>
    if (texts.headD []).isEmpty then none
    else (splitAtFirst (texts.headD []) rest).bind (fun parts =>
      (scanSegments (holes + 1) texts.tail parts.2).map (fun segments => parts.1 :: segments))

section Split

variable {text : NumberText} {store : Store} {fuel : Nat}

theorem scanSegments_cons_cons (holes : Nat) (texts : List (List Char)) (rest : List Char)
    {segments : List (List Char)} :
    scanSegments (holes + 2) texts rest = some segments ↔
      (texts.headD []).isEmpty = false ∧ ∃ seg behind later,
        splitAtFirst (texts.headD []) rest = some (seg, behind) ∧
        scanSegments (holes + 1) texts.tail behind = some later ∧ segments = seg :: later := by
  rw [scanSegments]
  generalize texts.headD [] = separator
  cases separator.isEmpty with
  | true => simp
  | false =>
    cases splitAtFirst separator rest with
    | none => simp
    | some parts => simp [eq_comm, Prod.ext_iff]

/-- **The scan of the relation** accepts when every hole matches its segment. -/
theorem matchHoles_iff {holes : List TypeId} {texts : List (List Char)} {rest : List Char} :
    matchHoles text store fuel holes texts rest = some true ↔
      ∃ segments, scanSegments holes.length texts rest = some segments ∧
        List.Forall₂ (fun hole seg => holeMatchesSegment text store fuel hole seg = some true)
          holes segments := by
  induction holes generalizing texts rest with
  | nil => cases rest <;> simp [matchHoles, scanSegments]
  | cons hole holes ih =>
    cases holes with
    | nil =>
      simp only [matchHoles, length_singleton, scanSegments]
      generalize texts.headD [] = last
      cases stripEnd last rest <;> simp
    | cons next holes =>
      rw [matchHoles_cons_cons]
      simp only [length_cons, scanSegments_cons_cons]
      cases hempty : (texts.headD []).isEmpty with
      | true => simp
      | false =>
        cases hfound : splitAtFirst (texts.headD []) rest with
        | none => simp
        | some parts =>
          obtain ⟨seg, behind⟩ := parts
          constructor
          · intro h
            simp only [Bool.false_eq_true, if_false, bind_eq_some_iff] at h
            obtain ⟨found, hmatch, h⟩ := h
            cases found with
            | false => cases h
            | true =>
              obtain ⟨later, hlater, hall⟩ := ih.mp h
              exact ⟨seg :: later, ⟨rfl, seg, behind, later, rfl, hlater, rfl⟩, .cons hmatch hall⟩
          · rintro ⟨segments, ⟨-, seg', behind', later, hparts, hlater, rfl⟩, hall⟩
            cases hparts
            obtain ⟨hmatch, hall⟩ := forall₂_cons.mp hall
            simp only [Bool.false_eq_true, if_false, hmatch, bind_some, if_true]
            exact ih.mpr ⟨later, hlater, hall⟩

/-- What a hole captures. -/
def captureOf (store : Store) (hole : TypeId) (seg : List Char) : List Capture :=
  if store.tag hole = some .typeParam then
    (store.typeParam hole).toList.map (fun param => (param.id, seg))
  else []

/-- A hole takes a segment: it is a parameter, or it matches. -/
def Takes (text : NumberText) (store : Store) (fuel : Nat) (hole : TypeId) (seg : List Char) :
    Prop :=
  store.tag hole = some .typeParam ∨ segmentMatchesHole text store fuel hole seg = some true

theorem captureHole_iff {hole : TypeId} {seg : List Char} {captures : List Capture} :
    captureHole text store fuel hole seg = some (some captures) ↔
      Takes text store fuel hole seg ∧ captures = captureOf store hole seg := by
  unfold captureHole Takes captureOf
  split
  · rename_i htag
    simp [htag, eq_comm]
  · rename_i htag
    simp only [htag, false_or, map_eq_some_iff]
    constructor
    · rintro ⟨found, hmatch, hresult⟩
      cases found with
      | false => cases hresult
      | true =>
        cases hresult
        exact ⟨hmatch, rfl⟩
    · rintro ⟨hmatch, rfl⟩
      exact ⟨true, hmatch, rfl⟩

theorem captureHoles_cons_cons (hole next : TypeId) (holes : List TypeId) (texts : List (List Char))
    (rest : List Char) :
    captureHoles text store fuel (hole :: next :: holes) texts rest
      = if (texts.headD []).isEmpty then some none
        else
          match splitAtFirst (texts.headD []) rest with
          | none => some none
          | some (seg, rest) =>
            (captureHole text store fuel hole seg).bind (fun
              | none => some none
              | some captures =>
                (captureHoles text store fuel (next :: holes) texts.tail rest).map (fun later =>
                  later.map (fun later => captures ++ later))) := rfl

/-- **The scan of the checker** captures along the same split. -/
theorem captureHoles_iff {holes : List TypeId} {texts : List (List Char)} {rest : List Char}
    {captures : List Capture} :
    captureHoles text store fuel holes texts rest = some (some captures) ↔
      ∃ segments, scanSegments holes.length texts rest = some segments ∧
        List.Forall₂ (Takes text store fuel) holes segments ∧
        captures = (zipWith (captureOf store) holes segments).flatten := by
  induction holes generalizing texts rest captures with
  | nil => cases rest <;> simp [captureHoles, scanSegments, eq_comm]
  | cons hole holes ih =>
    cases holes with
    | nil =>
      simp only [captureHoles, length_singleton, scanSegments]
      generalize texts.headD [] = last
      cases stripEnd last rest <;> simp [captureHole_iff]
    | cons next holes =>
      rw [captureHoles_cons_cons]
      simp only [length_cons, scanSegments_cons_cons]
      cases hempty : (texts.headD []).isEmpty with
      | true => simp
      | false =>
        cases hfound : splitAtFirst (texts.headD []) rest with
        | none => simp
        | some parts =>
          obtain ⟨seg, behind⟩ := parts
          constructor
          · intro h
            simp only [Bool.false_eq_true, if_false, bind_eq_some_iff] at h
            obtain ⟨found, hfirst, h⟩ := h
            cases found with
            | none => cases h
            | some first =>
              obtain ⟨htakes, rfl⟩ := captureHole_iff.mp hfirst
              obtain ⟨later, hscan, hmap⟩ := map_eq_some_iff.mp h
              obtain ⟨behind', rfl, rfl⟩ := map_eq_some_iff.mp hmap
              obtain ⟨segments, hsegments, hall, rfl⟩ := ih.mp hscan
              exact ⟨seg :: segments, ⟨rfl, seg, behind, segments, rfl, hsegments, rfl⟩,
                .cons htakes hall, rfl⟩
          · rintro ⟨_, ⟨-, seg', behind', segments, hparts, hsegments, rfl⟩, hall, rfl⟩
            cases hparts
            obtain ⟨htakes, hall⟩ := forall₂_cons.mp hall
            simp only [Bool.false_eq_true, if_false, captureHole_iff.mpr ⟨htakes, rfl⟩,
              bind_some, ih.mpr ⟨segments, hsegments, hall, rfl⟩]
            rfl

end Split

/-! ## §4 Holes of an interner -/

section Holes

variable {structuralHash : StructuralKey → Nat} {regular : Prop} {text : NumberText}
  {σ τ : Interner} {hole : TypeId} {seg : List Char}

theorem row_of_intrinsicKind {store : Store} {kind : IntrinsicKind}
    (h : store.intrinsicKind hole = some kind) : store.row hole = some (.intrinsic kind) := by
  have hdecides := Store.decides_intrinsic (s := store) kind hole
  simp only [beq_iff_eq] at hdecides
  obtain ⟨r, hrow, hkey⟩ := hdecides.mp h
  cases r <;> cases hkey
  exact hrow

/-- Only an intrinsic row has a kind. -/
theorem intrinsicKind_eq_none {store : Store} {r : Row} (hrow : store.row hole = some r)
    (hne : r.tag ≠ .intrinsic) : store.intrinsicKind hole = none := by
  rw [eq_none_iff_forall_ne_some]
  intro kind hkind
  rw [row_of_intrinsicKind hkind, some.injEq] at hrow
  apply hne
  rw [← hrow]
  rfl

/-- The members of a stored union are rows that are no unions. -/
theorem row_of_unionMembers (hσ : σ.Consed structuralHash regular) {members : List TypeId}
    (hmembers : σ.store.unionMembers hole = some members) {member : TypeId}
    (hmember : member ∈ members) :
    (∃ r, σ.store.row member = some r) ∧ σ.store.unionMembers member = none := by
  have hrow := (σ.store.entry_eq_some_iff .unions hole members).mp hmembers
  obtain ⟨tag, htag, hne⟩ := (hσ.canonical hole _ hrow).flat member hmember
  obtain ⟨r, hr, -⟩ := row_of_tag hσ htag
  refine ⟨⟨r, hr⟩, unionMembers_of_tag_ne ?_⟩
  rw [htag]
  simpa using hne

/-- A row that is no union needs no further call. -/
theorem holeMatchesSegment_flat (hflat : σ.store.unionMembers hole = none) (fuel : Nat) :
    ∃ found, holeMatchesSegment text σ.store (fuel + 1) hole seg = some found := by
  unfold holeMatchesSegment
  rw [hflat]
  split
  · exact ⟨_, rfl⟩
  · exact ⟨_, rfl⟩
  · split <;> exact ⟨_, rfl⟩

/-- Asking members that all answer is asking whether some member answers yes. -/
theorem foldr_matches {members : List TypeId} {ask : TypeId → Option Bool}
    (hask : ∀ member ∈ members, ∃ found, ask member = some found) :
    members.foldr (fun member rest =>
        (ask member).bind (fun found => if found then some true else rest)) (some false)
      = some (members.any (fun member => ask member == some true)) := by
  induction members with
  | nil => rfl
  | cons member members ih =>
    obtain ⟨found, hfound⟩ := hask member mem_cons_self
    rw [foldr_cons, ih (fun other hother => hask other (mem_cons_of_mem _ hother)),
      any_cons, hfound]
    cases found <;> simp

/-- **Stored unions are flat**, so that two calls decide a hole. -/
theorem holeMatchesSegment_total (hσ : σ.Consed structuralHash regular) (fuel : Nat) :
    ∃ found, holeMatchesSegment text σ.store (fuel + 2) hole seg = some found := by
  cases hmembers : σ.store.unionMembers hole with
  | none => exact holeMatchesSegment_flat hmembers (fuel + 1)
  | some members =>
    have hask : ∀ member ∈ members, ∃ found,
        holeMatchesSegment text σ.store (fuel + 1) member seg = some found :=
      fun member hmember =>
        holeMatchesSegment_flat (row_of_unionMembers hσ hmembers hmember).2 fuel
    unfold holeMatchesSegment
    rw [hmembers]
    simp only [foldr_matches hask]
    split
    · exact ⟨_, rfl⟩
    · exact ⟨_, rfl⟩
    · split <;> exact ⟨_, rfl⟩

/-- A row matches the same segments in an extension. -/
theorem holeMatchesSegment_extends (hσ : σ.Consed structuralHash regular)
    (hext : Interner.Extends σ τ) {r : Row} (hr : σ.store.row hole = some r) (fuel : Nat) :
    holeMatchesSegment text τ.store (fuel + 2) hole seg
      = holeMatchesSegment text σ.store (fuel + 2) hole seg := by
  have hliteral : τ.store.literalValue hole = σ.store.literalValue hole :=
    hext.entry_eq hr .literals
  have hunion : τ.store.unionMembers hole = σ.store.unionMembers hole := hext.entry_eq hr .unions
  rw [holeMatchesSegment, holeMatchesSegment, hext.intrinsicKind_eq hr, hliteral, hunion]
  cases hmembers : σ.store.unionMembers hole with
  | none => rfl
  | some members =>
    have hflat : ∀ member ∈ members, holeMatchesSegment text τ.store (fuel + 1) member seg
        = holeMatchesSegment text σ.store (fuel + 1) member seg := by
      intro member hmember
      obtain ⟨⟨row, hrow⟩, hnone⟩ := row_of_unionMembers hσ hmembers hmember
      have hliteral : τ.store.literalValue member = σ.store.literalValue member :=
        hext.entry_eq hrow .literals
      have hunion : τ.store.unionMembers member = σ.store.unionMembers member :=
        hext.entry_eq hrow .unions
      rw [holeMatchesSegment, holeMatchesSegment, hext.intrinsicKind_eq hrow, hliteral, hunion,
        hnone]
    have hfold : members.foldr (fun member rest =>
          (holeMatchesSegment text τ.store (fuel + 1) member seg).bind (fun found =>
            if found then some true else rest)) (some false)
        = members.foldr (fun member rest =>
          (holeMatchesSegment text σ.store (fuel + 1) member seg).bind (fun found =>
            if found then some true else rest)) (some false) := by
      apply foldr_ext
      intro member hmember rest
      rw [hflat member hmember]
    simp only [hfold]

/-- A hole that matches has a row. -/
theorem row_of_holeMatchesSegment {fuel : Nat}
    (h : holeMatchesSegment text σ.store fuel hole seg = some true) :
    ∃ r, σ.store.row hole = some r := by
  by_contra hnone
  rw [not_exists] at hnone
  have hentry : ∀ t : SideTable, σ.store.entry t hole = none := by
    intro t
    rw [eq_none_iff_forall_ne_some]
    exact fun entry hentry => hnone _ ((σ.store.entry_eq_some_iff t hole entry).mp hentry)
  have hkind : σ.store.intrinsicKind hole = none := by
    rw [eq_none_iff_forall_ne_some]
    exact fun kind hkind => hnone _ (row_of_intrinsicKind hkind)
  cases fuel with
  | zero => cases h
  | succ fuel =>
    rw [holeMatchesSegment, hkind, show σ.store.literalValue hole = none from hentry .literals,
      show σ.store.unionMembers hole = none from hentry .unions] at h
    cases h

/-- **A union of literals matches each of them.** -/
theorem holeMatchesSegment_named (hσ : σ.Consed structuralHash regular)
    (h : NamedKey σ.store hole (.string (String.ofList seg))) (fuel : Nat) :
    holeMatchesSegment text σ.store (fuel + 2) hole seg = some true := by
  obtain ⟨member, hmember, hrow⟩ := h
  have hliteral : ∀ fuel, holeMatchesSegment text σ.store (fuel + 1) member seg = some true := by
    intro fuel
    have hvalue : σ.store.literalValue member = some (.string (String.ofList seg)) :=
      (σ.store.entry_eq_some_iff .literals member _).mpr hrow
    rw [holeMatchesSegment, intrinsicKind_eq_none hrow (by simp [Row.tag]), hvalue]
    simp [literalSegment]
  unfold expand at hmember
  cases hmembers : σ.store.unionMembers hole with
  | none =>
    rw [hmembers, getD_none, mem_singleton] at hmember
    rw [← hmember]
    exact hliteral (fuel + 1)
  | some members =>
    rw [hmembers, getD_some] at hmember
    have hunion : σ.store.row hole = some (.union members) :=
      (σ.store.entry_eq_some_iff .unions hole members).mp hmembers
    have hkind : σ.store.intrinsicKind hole = none :=
      intrinsicKind_eq_none hunion (by simp [Row.tag])
    have hvalue : σ.store.literalValue hole = none :=
      @Store.entry_eq_none_of_entry _ .unions .literals _ _ hmembers (by decide)
    have hask : ∀ other ∈ members, ∃ found,
        holeMatchesSegment text σ.store (fuel + 1) other seg = some found :=
      fun other hother =>
        holeMatchesSegment_flat (row_of_unionMembers hσ hmembers hother).2 fuel
    rw [holeMatchesSegment, hkind, hvalue, hmembers]
    simp only [foldr_matches hask, some.injEq, List.any_eq_true, beq_iff_eq]
    exact ⟨member, hmember, hliteral fuel⟩

end Holes

/-! ## §5 What is recorded and put back -/

section Replace

variable {structuralHash : StructuralKey → Nat} {regular : Prop} {text : NumberText}
  {σ τ : Interner}

/-- The rows of the ids are the literals of the segments. -/
def LiteralsOf (store : Store) (ids : List TypeId) (segments : List (List Char)) : Prop :=
  List.Forall₂ (fun id seg => store.row id = some (.literal (.string (String.ofList seg))))
    ids segments

/-- The segments that a parameter has captured. -/
def segmentsOf (captures : List Capture) (id : TypeParamId) : List (List Char) :=
  (captures.filter (fun capture => capture.1 == id)).map Prod.snd

theorem LiteralsOf.mono (hext : Interner.Extends σ τ) {ids : List TypeId}
    {segments : List (List Char)} (h : LiteralsOf σ.store ids segments) :
    LiteralsOf τ.store ids segments :=
  List.Forall₂.imp (fun _ _ hrow => hext.row hrow) h

theorem Candidates.of_insert (candidates : Candidates) (id other : TypeParamId) (ids : List TypeId) :
    Candidates.of (candidates.insert id ids) other
      = if other = id then ids else candidates.of other := by
  unfold Candidates.of
  split
  · rename_i heq
    rw [heq, Finmap.lookup_insert, getD_some]
  · rename_i hne
    rw [Finmap.lookup_insert_of_ne _ hne]

/-- **Each parameter gets the literals of its segments**, behind what it had. -/
theorem recordCaptures_spec (hσ : σ.Consed structuralHash regular) {captures : List Capture}
    {candidates candidates' : Candidates}
    (h : recordCaptures structuralHash captures σ candidates = (τ, candidates')) :
    Interner.Grows structuralHash regular σ τ ∧ ∀ id, ∃ literals,
      candidates'.of id = candidates.of id ++ literals ∧
      LiteralsOf τ.store literals (segmentsOf captures id) := by
  induction captures generalizing σ candidates with
  | nil =>
    cases h
    exact ⟨.refl _, fun id => ⟨[], (append_nil _).symm, .nil⟩⟩
  | cons capture captures ih =>
    obtain ⟨param, seg⟩ := capture
    have hgrows := @grows_propertyKeyType structuralHash regular σ hσ (.string (String.ofList seg))
    have hrow := @row_propertyKeyType structuralHash regular σ hσ (.string (String.ofList seg))
    obtain ⟨hrest, hall⟩ := ih (hgrows.consed hσ) h
    refine ⟨hgrows.trans hrest, fun id => ?_⟩
    obtain ⟨literals, heq, hliterals⟩ := hall id
    rw [Candidates.of_insert] at heq
    by_cases hid : id = param
    · subst hid
      rw [if_pos rfl, append_assoc] at heq
      refine ⟨_, heq, ?_⟩
      rw [segmentsOf, filter_cons_of_pos (by simp), map_cons]
      exact .cons (hrest.grown.row hrow) hliterals
    · rw [if_neg hid] at heq
      refine ⟨literals, heq, ?_⟩
      rw [segmentsOf, filter_cons_of_neg (by simpa using fun h : param = id => hid h.symm)]
      exact hliterals

/-- A union of the literals of some segments names each of them. -/
theorem union_literals (hσ : σ.Consed structuralHash regular) (hknown : σ.KnowsIntrinsics)
    {ids : List TypeId} {segments : List (List Char)} (h : LiteralsOf σ.store ids segments) :
    ∃ made τ, σ.union structuralHash ids = some (made, τ) ∧
      Interner.Grows structuralHash regular σ τ ∧
      KeyUnion τ made (fun key => ∃ seg ∈ segments, key = .string (String.ofList seg)) := by
  have hrows : ∀ member ∈ ids, ∃ r, σ.store.row member = some r := by
    intro member hmember
    obtain ⟨seg, -, hrow⟩ := Lib.exists_right_of_forall₂ h hmember
    exact ⟨_, hrow⟩
  have hunion := (union_eq structuralHash hσ hrows).1
  generalize σ.unionOfFlat structuralHash (flattened σ.store.unionMembers ids) = result
    at hunion
  obtain ⟨made, τ⟩ := result
  refine ⟨made, τ, hunion, .of_interning (interning_union ids) hσ hunion, ?_⟩
  apply keyUnion_union hσ hknown _ _ hunion
  · intro member hmember
    obtain ⟨seg, hseg, hrow⟩ := Lib.exists_right_of_forall₂ h hmember
    refine ⟨_, @keyUnion_literal _ member (.string (String.ofList seg)) hrow, ?_⟩
    rintro key rfl
    exact ⟨seg, hseg, rfl⟩
  · rintro key ⟨seg, hseg, rfl⟩
    obtain ⟨member, hmember, hrow⟩ := Lib.exists_left_of_forall₂ h hseg
    exact ⟨member, hmember, _, @keyUnion_literal _ member (.string (String.ofList seg)) hrow, rfl⟩

/-- What stands in place of a hole: the union of what its parameter captured, or itself. -/
def Replaced (captures : List Capture) (σ : Interner) (hole made : TypeId) (τ : Interner) : Prop :=
  (∃ param, σ.store.typeParam hole = some param ∧ KeyUnion τ made (fun key =>
    ∃ seg ∈ segmentsOf captures param.id, key = .string (String.ofList seg))) ∨
  (σ.store.typeParam hole = none ∧ made = hole)

/-- **All parameters are replaced**, when each has literals for its segments. -/
theorem replaceParams_spec {structuralHash : StructuralKey → Nat}
    (hτ : τ.Consed structuralHash regular) (hknown : τ.KnowsIntrinsics)
    (hext : Interner.Extends σ τ) {captures : List Capture} {captured : TypeParamId → List TypeId}
    (hcaptured : ∀ id, LiteralsOf τ.store (captured id) (segmentsOf captures id))
    {holes : List TypeId} (hrows : ∀ hole ∈ holes, ∃ r, σ.store.row hole = some r) :
    ∃ made ρ, replaceParams structuralHash captured τ holes = some (made, ρ) ∧
      Interner.Grows structuralHash regular τ ρ ∧
      List.Forall₂ (fun hole made => Replaced captures σ hole made ρ) holes made := by
  -- every step runs in an interner that has grown from `τ`
  have hstep : ∀ hole ∈ holes, ∀ ρ, Interner.Grows structuralHash regular τ ρ →
      ∃ made ρ', (match ρ.store.typeParam hole with
        | some param => ρ.union structuralHash (captured param.id)
        | none => some (hole, ρ)) = some (made, ρ') ∧
        Interner.Grows structuralHash regular τ ρ' ∧ Interner.Grows structuralHash regular ρ ρ' ∧
        Replaced captures σ hole made ρ' := by
    intro hole hhole ρ hgrows
    obtain ⟨r, hr⟩ := hrows hole hhole
    have hparam : ρ.store.typeParam hole = σ.store.typeParam hole :=
      (hext.trans hgrows.grown).entry_eq hr .typeParams
    rw [hparam]
    cases hfound : σ.store.typeParam hole with
    | none => exact ⟨hole, ρ, rfl, hgrows, .refl ρ, .inr ⟨hfound, rfl⟩⟩
    | some param =>
      obtain ⟨made, ρ', hunion, hgrows', hkeys⟩ := union_literals (hgrows.consed hτ)
        (hknown.mono hgrows.grown) ((hcaptured param.id).mono hgrows.grown)
      exact ⟨made, ρ', hunion, hgrows.trans hgrows', hgrows', .inl ⟨param, hfound, hkeys⟩⟩
  obtain ⟨made, ρ, hrun, -⟩ := Lib.mapThreaded_total
    (fun ρ => Interner.Grows structuralHash regular τ ρ) (fun hole hhole ρ hgrows => by
      obtain ⟨made, ρ', hrun, hgrows', -, -⟩ := hstep hole hhole ρ hgrows
      exact ⟨made, ρ', hrun, hgrows'⟩) (.refl τ)
  obtain ⟨hgrows, -, hall⟩ := Lib.mapThreaded_spec
    (fun ρ => Interner.Grows structuralHash regular τ ρ)
    (Interner.Grows structuralHash regular) (Replaced captures σ)
    Interner.Grows.refl (fun _ _ _ => Interner.Grows.trans)
    (fun hole made ρ ρ' _ hgrows hreplaced => by
      rcases hreplaced with ⟨param, hparam, hkeys⟩ | hsame
      · exact .inl ⟨param, hparam, hkeys.mono hgrows.grown⟩
      · exact .inr hsame)
    (fun hole hhole ρ made ρ' hgrows hrun => by
      obtain ⟨made', ρ'', hrun', hτ', hgrows', hreplaced⟩ := hstep hole hhole ρ hgrows
      rw [hrun] at hrun'
      cases hrun'
      exact ⟨hτ', hgrows', hreplaced⟩)
    (.refl τ) hrun
  exact ⟨made, ρ, hrun, hgrows, hall⟩

end Replace

/-! ## §6 Inference and assignability agree -/

section Agreement

variable {structuralHash : StructuralKey → Nat} {regular : Prop} {text : NumberText}
  {σ τ : Interner} {fuel : Nat}

/-- The scan returns when two calls decide every hole. -/
theorem captureHoles_total (hσ : σ.Consed structuralHash regular) (holes : List TypeId)
    (texts : List (List Char)) (rest : List Char) :
    ∃ outcome, captureHoles text σ.store (fuel + 2) holes texts rest = some outcome := by
  have hhole : ∀ hole seg, ∃ outcome,
      captureHole text σ.store (fuel + 2) hole seg = some outcome := by
    intro hole seg
    unfold captureHole
    split
    · exact ⟨_, rfl⟩
    · obtain ⟨found, hfound⟩ := @holeMatchesSegment_total _ _ text σ hole seg hσ fuel
      rw [segmentMatchesHole_eq, hfound]
      exact ⟨_, rfl⟩
  induction holes generalizing texts rest with
  | nil => exact ⟨_, rfl⟩
  | cons hole holes ih =>
    cases holes with
    | nil =>
      unfold captureHoles
      split
      · exact ⟨_, rfl⟩
      · exact hhole hole _
    | cons next holes =>
      rw [captureHoles_cons_cons]
      split
      · exact ⟨_, rfl⟩
      · split
        · exact ⟨_, rfl⟩
        · rename_i seg behind _
          obtain ⟨outcome, houtcome⟩ := hhole hole seg
          rw [houtcome, bind_some]
          cases outcome with
          | none => exact ⟨_, rfl⟩
          | some captures =>
            obtain ⟨later, hlater⟩ := ih texts.tail behind
            rw [hlater]
            exact ⟨_, rfl⟩

/-- What stands behind the first text, and the scan of it. -/
theorem captureTemplate_eq_some {store : Store} {template : TemplateType} {s : String}
    {captures : List Capture} :
    captureTemplate text store fuel s template = some (some captures) ↔
      ∃ rest, s.toList = (template.texts.map String.toList).headD [] ++ rest ∧
        captureHoles text store fuel template.holes (template.texts.map String.toList).tail rest
          = some (some captures) := by
  unfold captureTemplate
  simp only [← stripStart_eq_some]
  cases stripStart ((template.texts.map String.toList).headD []) s.toList <;> simp

/-- Every hole takes its segment, and what it captures is among all captures. -/
theorem takes_captures {store : Store} {holes : List TypeId} {segments : List (List Char)}
    (h : List.Forall₂ (Takes text store fuel) holes segments) :
    List.Forall₂ (fun hole seg => Takes text store fuel hole seg ∧
      ∀ capture ∈ captureOf store hole seg,
        capture ∈ (zipWith (captureOf store) holes segments).flatten) holes segments := by
  induction h with
  | nil => exact .nil
  | @cons hole seg holes segments hfirst _ ih =>
    rw [zipWith_cons_cons, flatten_cons]
    refine .cons ⟨hfirst, fun capture hmem => mem_append_left _ hmem⟩ ?_
    apply ih.imp
    intro other later hother
    exact ⟨hother.1, fun capture hmem => mem_append_right _ (hother.2 capture hmem)⟩

/-- **The recorded literals in place of the parameters** match the segments they came from. -/
theorem matches_of_replaced (hσ : σ.Consed structuralHash regular) {ρ : Interner}
    (hρ : ρ.Consed structuralHash regular) (hext : Interner.Extends σ ρ) {holes made : List TypeId}
    {segments : List (List Char)}
    (htakes : List.Forall₂ (Takes text σ.store (fuel + 2)) holes segments)
    (hreplaced : List.Forall₂ (fun hole made => Replaced
      (zipWith (captureOf σ.store) holes segments).flatten σ hole made ρ) holes made) :
    List.Forall₂ (fun made seg => holeMatchesSegment text ρ.store (fuel + 2) made seg = some true)
      made segments := by
  refine Lib.forall₂_join ?_ (takes_captures htakes) hreplaced
  rintro hole seg made ⟨htake, hcaptures⟩ hmade
  rcases hmade with ⟨param, hparam, hkeys⟩ | ⟨hnone, rfl⟩
  · -- the segment is one of those the parameter captured
    apply holeMatchesSegment_named hρ
    apply hkeys.named
    refine ⟨seg, ?_, rfl⟩
    have hrow := (σ.store.entry_eq_some_iff .typeParams hole param).mp hparam
    have htag : σ.store.tag hole = some .typeParam := Store.tag_of_row hrow
    have hmem := hcaptures (param.id, seg) (by simp [captureOf, htag, hparam])
    exact mem_map.mpr ⟨(param.id, seg), mem_filter.mpr ⟨hmem, by simp⟩, rfl⟩
  · -- any other hole is the same row in the later interner
    rcases htake with htag | hmatch
    · exfalso
      obtain ⟨r, hr, htagR⟩ := row_of_tag hσ htag
      cases r <;> cases htagR
      rename_i param
      rw [show σ.store.typeParam made = some param from
        (σ.store.entry_eq_some_iff .typeParams made param).mpr hr] at hnone
      cases hnone
    · rw [segmentMatchesHole_eq] at hmatch
      obtain ⟨r, hr⟩ := row_of_holeMatchesSegment hmatch
      rw [holeMatchesSegment_extends hσ hext hr]
      exact hmatch

/-- Without parameters, taking a segment is matching it. -/
theorem takes_iff_matches {store : Store} {holes : List TypeId}
    (hnone : ∀ hole ∈ holes, store.tag hole ≠ some .typeParam) (segments : List (List Char)) :
    List.Forall₂ (Takes text store fuel) holes segments ↔
      List.Forall₂ (fun hole seg => holeMatchesSegment text store fuel hole seg = some true)
        holes segments := by
  induction holes generalizing segments with
  | nil => simp
  | cons hole holes ih =>
    cases segments with
    | nil => simp
    | cons seg segments =>
      have hhole := hnone hole mem_cons_self
      rw [forall₂_cons, forall₂_cons,
        ih (fun other hother => hnone other (mem_cons_of_mem _ hother))]
      simp [Takes, hhole, segmentMatchesHole_eq]

/-- What the call does with the outcome of its scan. -/
theorem inferFromTemplate_eq {source target : TypeId} {s : String} {template : TemplateType}
    (hsource : σ.store.literalValue source = some (.string s))
    (htarget : σ.store.templateType target = some template) (hholes : template.holes ≠ [])
    (candidates : Candidates) {outcome : Option (List Capture)}
    (houtcome : captureTemplate text σ.store fuel s template = some outcome) :
    inferFromTemplate structuralHash text fuel σ source target candidates
      = some (outcome.elim (σ, candidates)
          (fun captures => recordCaptures structuralHash captures σ candidates)) := by
  unfold inferFromTemplate
  rw [hsource, htarget]
  dsimp only
  rw [if_neg (by simpa using hholes), houtcome]
  cases outcome <;> rfl

/-- **Template inference and template assignability agree.**  The scan always returns.  When it
    fails nothing is recorded.  When it succeeds, every parameter gets literals behind what it
    had, and the template with the unions of these in place of its parameters accepts the
    string.  Without parameters the scan succeeds exactly when the template accepts it. -/
theorem template_inference_agrees (text : NumberText) (hσ : σ.Reachable structuralHash)
    {source target : TypeId} {s : String} {template : TemplateType}
    (hsource : σ.store.literalValue source = some (.string s))
    (htarget : σ.store.templateType target = some template) (hholes : template.holes ≠ [])
    (candidates : Candidates) (fuel : Nat) :
    ∃ outcome τ candidates',
      captureTemplate text σ.store (fuel + 2) s template = some outcome ∧
      inferFromTemplate structuralHash text (fuel + 2) σ source target candidates
        = some (τ, candidates') ∧
      (outcome = none → τ = σ ∧ candidates' = candidates) ∧
      (outcome ≠ none → ∃ captured : TypeParamId → List TypeId,
        (∀ id, candidates'.of id = candidates.of id ++ captured id) ∧
        ∃ holes ρ, replaceParams structuralHash captured τ template.holes = some (holes, ρ) ∧
          matchLiteralAgainstPattern text ρ.store (fuel + 2) s { template with holes }
            = some true) ∧
      ((∀ hole ∈ template.holes, σ.store.tag hole ≠ some .typeParam) →
        (outcome ≠ none ↔
          matchLiteralAgainstPattern text σ.store (fuel + 2) s template = some true)) := by
  have hconsed := hσ.consed
  obtain ⟨outcome, houtcome⟩ : ∃ outcome,
      captureTemplate text σ.store (fuel + 2) s template = some outcome := by
    unfold captureTemplate
    split
    · exact ⟨none, rfl⟩
    · exact captureHoles_total hconsed _ _ _
  have hinfer := @inferFromTemplate_eq structuralHash text σ (fuel + 2) source target s template
    hsource htarget hholes candidates outcome houtcome
  have hparams : (∀ hole ∈ template.holes, σ.store.tag hole ≠ some .typeParam) →
      (outcome ≠ none ↔
        matchLiteralAgainstPattern text σ.store (fuel + 2) s template = some true) := by
    intro hnone
    rw [matchLiteralAgainstPattern_eq_true hholes]
    have htakes := @takes_iff_matches text (fuel + 2) σ.store template.holes hnone
    constructor
    · intro hsome
      obtain ⟨captures, rfl⟩ := ne_none_iff_exists'.mp hsome
      obtain ⟨rest, hrest, hcapture⟩ := captureTemplate_eq_some.mp houtcome
      obtain ⟨segments, hscan, hall, -⟩ := captureHoles_iff.mp hcapture
      exact ⟨rest, hrest, matchHoles_iff.mpr ⟨segments, hscan, (htakes segments).mp hall⟩⟩
    · rintro ⟨rest, hrest, hmatch⟩ rfl
      obtain ⟨segments, hscan, hall⟩ := matchHoles_iff.mp hmatch
      have hcapture := captureTemplate_eq_some.mpr ⟨rest, hrest,
        captureHoles_iff.mpr ⟨segments, hscan, (htakes segments).mpr hall, rfl⟩⟩
      rw [houtcome] at hcapture
      cases hcapture
  cases outcome with
  | none => exact ⟨none, σ, candidates, houtcome, hinfer, fun _ => ⟨rfl, rfl⟩, by simp, hparams⟩
  | some captures =>
    obtain ⟨⟨τ, candidates'⟩, hrecord⟩ :
      ∃ result, recordCaptures structuralHash captures σ candidates = result := ⟨_, rfl⟩
    refine ⟨some captures, τ, candidates', houtcome, ?_, by simp, fun _ => ?_, hparams⟩
    · rw [hinfer, elim_some, hrecord]
    · obtain ⟨hgrows, hall⟩ := recordCaptures_spec hconsed hrecord
      choose captured hcaptured hliterals using hall
      obtain ⟨rest, hrest, hcapture⟩ := captureTemplate_eq_some.mp houtcome
      obtain ⟨segments, hscan, htakes, rfl⟩ := captureHoles_iff.mp hcapture
      have hrows : ∀ hole ∈ template.holes, ∃ r, σ.store.row hole = some r := by
        intro hole hhole
        obtain ⟨seg, -, htag | hmatch⟩ := Lib.exists_right_of_forall₂ htakes hhole
        · obtain ⟨r, hr, -⟩ := row_of_tag hconsed htag
          exact ⟨r, hr⟩
        · rw [segmentMatchesHole_eq] at hmatch
          exact row_of_holeMatchesSegment hmatch
      -- the recorded literals take the places of the parameters
      obtain ⟨made, ρ, hreplace, hgrows', hreplaced⟩ := replaceParams_spec (hgrows.consed hconsed)
        (hσ.knowsIntrinsics.mono hgrows.grown) hgrows.grown hliterals hrows
      have hmatches := matches_of_replaced hconsed (hgrows'.consed (hgrows.consed hconsed))
        (hgrows.grown.trans hgrows'.grown) htakes hreplaced
      have hlength : made.length = template.holes.length := hreplaced.length_eq.symm
      refine ⟨captured, hcaptured, made, ρ, hreplace, ?_⟩
      rw [matchLiteralAgainstPattern_eq_true]
      · refine ⟨rest, hrest, matchHoles_iff.mpr ⟨segments, ?_, hmatches⟩⟩
        rw [hlength]
        exact hscan
      · rintro rfl
        exact hholes (length_eq_zero_iff.mp hlength.symm)

/-- `` `a-${T}-c` `` captures `"x"` of `"a-x-c"`; no text of a number is asked for. -/
theorem template_inference_agrees_capture :
    ∃ σ τ : Interner, σ.Reachable (fun _ => 0) ∧ ∃ candidates' captured,
      inferFromTemplate (fun _ => 0) ⟨fun _ => "", fun _ => "", fun _ => none⟩ 2 σ 21 20 ∅
        = some (τ, candidates') ∧
      (∀ id, candidates'.of id = Candidates.of ∅ id ++ captured id) ∧
      ∃ holes ρ, replaceParams (fun _ => 0) captured τ [19] = some (holes, ρ) ∧
        matchLiteralAgainstPattern ⟨fun _ => "", fun _ => "", fun _ => none⟩ ρ.store 2 "a-x-c"
          ⟨["a-", "-c"], holes⟩ = some true := by
  obtain ⟨reached, hrun, hsource, htarget, hcapture⟩ := exists_of_run
    (r := runHistory (fun _ => 0) 0 [.internTypeParam 0 "T",
      .internTemplate ⟨["a-", "-c"], [19]⟩, .internLiteral (.string "a-x-c")]
      (withIntrinsics (fun _ => 0)))
    (P := fun reached => reached.2.store.literalValue 21 = some (.string "a-x-c") ∧
      reached.2.store.templateType 20 = some ⟨["a-", "-c"], [19]⟩ ∧
      captureTemplate ⟨fun _ => "", fun _ => "", fun _ => none⟩ reached.2.store 2 "a-x-c"
        ⟨["a-", "-c"], [19]⟩ = some (some [(0, ['x'])])) (by decide +kernel)
  have hreach : reached.2.Reachable (fun _ => 0) := ⟨0, _, reached.1, hrun⟩
  obtain ⟨outcome, τ, candidates', houtcome, hinfer, -, hreplace, -⟩ :=
    template_inference_agrees ⟨fun _ => "", fun _ => "", fun _ => none⟩ hreach hsource htarget
      (by simp) ∅ 0
  have hsome : outcome ≠ none := by
    rw [hcapture] at houtcome
    cases houtcome
    simp
  obtain ⟨captured, hcaptured, holes, ρ, hmade, hmatch⟩ := hreplace hsome
  exact ⟨reached.2, τ, hreach, candidates', captured, hinfer, hcaptured, holes, ρ, hmade, hmatch⟩

end Agreement

end Typokat.Check
