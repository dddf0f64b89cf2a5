import Typokat.Types.Interner

/-!
# Template Patterns (`typokat-relate/src/relate/relation/advanced.rs`)

A template type is a list of texts with holes between them.  A string literal is matched against
it by scanning from left to right; a template is compared with another one by its outer texts.

The text of a number (`number_to_string`, `Display` and `FromStr` of `f64`) is a parameter.
-/

namespace Typokat.Relate

open Types

/-- What the code knows about the text of an `f64`. -/
structure NumberText where
  /-- `number_to_string` -/
  numberToString : F64 → String
  /-- `decimal_number_to_string`, the `Display` of an `f64` -/
  decimalNumberToString : F64 → String
  /-- `str::parse::<f64>` -/
  parse : String → Option F64

/-- `f64::is_finite`. -/
def isFinite (x : F64) : Bool := x.bits.extractLsb' 52 11 != 0x7FF#11

/-- `is_numeric_property_name`. -/
def isNumericPropertyName (text : NumberText) (name : String) : Bool :=
  ((text.parse name).map isFinite).getD false

/-! ## §1 Segments -/

/-- `str::strip_prefix`. -/
def stripStart (start text : List Char) : Option (List Char) :=
  if start.isPrefixOf text then some (text.drop start.length) else none

/-- `str::strip_suffix`. -/
def stripEnd (ending text : List Char) : Option (List Char) :=
  if ending.isSuffixOf text then some (text.take (text.length - ending.length)) else none

/-- The text before the first occurrence of a separator (`str::find`), and the text behind it. -/
def splitAtFirst (separator : List Char) : List Char → Option (List Char × List Char)
  | [] => if separator.isEmpty then some ([], []) else none
  | c :: rest =>
    if separator.isPrefixOf (c :: rest) then some ([], (c :: rest).drop separator.length)
    else (splitAtFirst separator rest).map (fun parts => (c :: parts.1, parts.2))

/-- The scan of `is_numeric_segment`: digits with at most one dot, which is neither first nor
    last. -/
def isDecimal : List Char → (first seenDot : Bool) → Bool
  | [], _, _ => true
  | c :: rest, first, seenDot =>
    if c == '.' then !seenDot && !first && !rest.isEmpty && isDecimal rest false true
    else c.isDigit && isDecimal rest false seenDot

/-- `is_numeric_segment`. -/
def isNumericSegment (text : NumberText) (segment : List Char) : Bool :=
  !segment.isEmpty && isDecimal segment true false &&
    match text.parse (String.ofList segment) with
    | some n => text.decimalNumberToString n == String.ofList segment
    | none => false

/-- `literal_segment`. -/
def literalSegment (text : NumberText) : LiteralValue → Option String
  | .string s => some s
  | .number n => some (text.numberToString n)
  | .boolean b => some (if b then "true" else "false")
  | .wellKnownSymbol _ => none

/-! ## §2 Holes -/

section Store

variable (text : NumberText) (store : Store)

/-- `hole_matches_segment`; `none` when unions nest deeper than `fuel`. -/
def holeMatchesSegment : Nat → TypeId → List Char → Option Bool
  | 0, _, _ => none
  | fuel + 1, hole, segment =>
    match store.intrinsicKind hole with
    | some .string => some true
    | some .number => some (isNumericSegment text segment)
    | _ =>
      match store.literalValue hole with
      | some value => some ((literalSegment text value).any (fun s => s.toList == segment))
      | none =>
        match store.unionMembers hole with
        | some members =>
          -- `any` stops at the first member that matches
          members.foldr (fun member rest =>
            (holeMatchesSegment fuel member segment).bind (fun found =>
              if found then some true else rest)) (some false)
        | none => some false

/-- The loop of `match_literal_against_pattern` over the holes, with the texts behind them. -/
def matchHoles (fuel : Nat) : List TypeId → List (List Char) → List Char → Option Bool
  | [], _, rest => some rest.isEmpty
  | [hole], texts, rest =>
    match stripEnd (texts.headD []) rest with
    | none => some false
    | some segment => holeMatchesSegment text store fuel hole segment
  | hole :: holes, texts, rest =>
    if (texts.headD []).isEmpty then some false
    else
      match splitAtFirst (texts.headD []) rest with
      | none => some false
      | some (segment, rest) =>
        (holeMatchesSegment text store fuel hole segment).bind (fun found =>
          if found then matchHoles fuel holes texts.tail rest else some false)

/-- `match_literal_against_pattern`. -/
def matchLiteralAgainstPattern (fuel : Nat) (s : String) (template : TemplateType) :
    Option Bool :=
  if template.holes.isEmpty then some (template.texts.head? == some s)
  else
    match stripStart ((template.texts.map String.toList).headD []) s.toList with
    | none => some false
    | some rest =>
      matchHoles text store fuel template.holes (template.texts.map String.toList).tail rest

end Store

/-! ## §3 Patterns -/

/-- `is_bare_string_hole`. -/
def isBareStringHole (store : Store) (template : TemplateType) : Bool :=
  template.holes.length == 1
    && template.holes.all (fun hole => store.intrinsicKind hole == some .string)
    && template.texts.all String.isEmpty

/-- `is_concrete_pattern`. -/
def isConcretePattern (store : Store) (template : TemplateType) : Bool :=
  template.holes.all (fun hole =>
    store.intrinsicKind hole == some .string || store.intrinsicKind hole == some .number)

/-- `template_subsumes`. -/
def templateSubsumes (store : Store) (src tgt : TypeId) : Bool :=
  match store.templateType src, store.templateType tgt with
  | some src, some tgt =>
    if !isConcretePattern store src || !isConcretePattern store tgt then false
    else if isBareStringHole store tgt then true
    else
      match tgt.holes with
      | [hole] =>
        store.intrinsicKind hole == some .string
          && (tgt.texts.headD "").toList.isPrefixOf (src.texts.headD "").toList
          && ((tgt.texts[1]?).getD "").toList.isSuffixOf (src.texts.getLastD "").toList
      | _ => false
  | _, _ => false

end Typokat.Relate
