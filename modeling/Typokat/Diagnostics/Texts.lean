import Typokat.Types.Store

/-!
# Displayed Texts (`diagnostics/render_type.rs`, `types/repr.rs`)

A displayed character carries the text it was copied from, if it was copied from one: the
names and keys of a program reach the display as they are, and everything else is written by
the renderer.

The characters of a string literal are escaped one by one, so they count as written.

## Main Results

- `written_escapedChar` : every character of a string literal is written on one line
- `written_numberChars` : and so is every number
-/

namespace Typokat.Diagnostics

open Types

/-! ## §1 Displayed characters -/

/-- A displayed character and the source text it was copied from. -/
structure Glyph where
  char : Char
  source : Option String := none
  deriving DecidableEq, Repr

abbrev Text := List Glyph

/-- A text of the renderer's own. -/
def made (chars : List Char) : Text := chars.map (fun c => { char := c })

/-- A text of the program, copied as it is. -/
def copied (text : String) : Text :=
  text.toList.map (fun c => { char := c, source := some text })

/-- A control character below U+0020. -/
def IsControl (c : Char) : Prop := c.toNat < 0x20

instance (c : Char) : Decidable (IsControl c) := inferInstanceAs (Decidable (_ < _))

instance (l : List Char) : Decidable (∀ c ∈ l, ¬ IsControl c) := l.decidableBAll _

/-- `ELLIPSIS`. -/
def ellipsis : Text := made "...".toList

/-! ## §2 Names -/

/-- `IntrinsicKind::display_name`. -/
def displayName : IntrinsicKind → String
  | .error => "any"
  | .any => "any"
  | .unknown => "unknown"
  | .never => "never"
  | .void => "void"
  | .null => "null"
  | .undefined => "undefined"
  | .boolean => "boolean"
  | .number => "number"
  | .string => "string"
  | .uppercase => "Uppercase"
  | .lowercase => "Lowercase"
  | .capitalize => "Capitalize"
  | .uncapitalize => "Uncapitalize"
  | .thisType => "ThisType"
  | .omitThisParameter => "OmitThisParameter"
  | .object => "object"
  | .bigInt => "bigint"
  | .symbol => "symbol"

/-- `WellKnownSymbol::name`. -/
def symbolName : WellKnownSymbol → String
  | .iterator => "iterator"
  | .toStringTag => "toStringTag"
  | .asyncIterator => "asyncIterator"
  | .species => "species"
  | .toPrimitive => "toPrimitive"
  | .replace => "replace"
  | .unscopables => "unscopables"
  | .split => "split"
  | .search => "search"
  | .match => "match"
  | .matchAll => "matchAll"
  | .hasInstance => "hasInstance"

/-- `Display for PropertyKey`: a string key is written as it is. -/
def propertyKeyText : PropertyKey → Text
  | .string name => copied name
  | .wellKnownSymbol symbol =>
    made ("[Symbol.".toList ++ (symbolName symbol).toList ++ "]".toList)

/-! ## §3 Numbers -/

/-- The biased exponent field. -/
def exponentField (n : F64) : Nat := (n.bits.extractLsb' 52 11).toNat

def fractionField (n : F64) : Nat := (n.bits.extractLsb' 0 52).toNat

/-- A finite double is `± significand * 2 ^ (scale - 1075)`. -/
def significand (n : F64) : Nat :=
  if exponentField n = 0 then fractionField n else 2 ^ 52 + fractionField n

def scale (n : F64) : Nat := max (exponentField n) 1

def isFinite (n : F64) : Bool := exponentField n != 0x7FF

/-- `n.fract() == 0.0 && n.is_finite()`. -/
def isWhole (n : F64) : Bool :=
  isFinite n && (decide (1075 ≤ scale n) || significand n % 2 ^ (1075 - scale n) == 0)

/-- `n as i64` of a whole number: the bounds of the integer type are its limits. -/
def asI64 (n : F64) : Int :=
  let magnitude :=
    if 1075 ≤ scale n then significand n * 2 ^ (scale n - 1075)
    else significand n / 2 ^ (1075 - scale n)
  if n.bits.msb then max (-(magnitude : Int)) (-2 ^ 63) else min (magnitude : Int) (2 ^ 63 - 1)

/-- `Display for i64`. -/
def integerChars : Int → List Char
  | .ofNat n => Nat.toDigits 10 n
  | .negSucc n => '-' :: Nat.toDigits 10 (n + 1)

/-- Whether `decimal / 10 ^ places` is read back as the same double: it lies between the
    midpoints to the two neighbours, which belong to an even significand. -/
def readsBack (n : F64) (places decimal : Nat) : Bool :=
  -- below a power of two the neighbour is only half as far away
  let below := if fractionField n = 0 ∧ 1 < exponentField n then 1 else 2
  let lower := (4 * significand n - below) * 10 ^ places
  let upper := (4 * significand n + 2) * 10 ^ places
  let value := 4 * decimal * 2 ^ (1075 - scale n)
  if significand n % 2 = 0 then decide (lower ≤ value ∧ value ≤ upper)
  else decide (lower < value ∧ value < upper)

/-- The shortest decimal that is read back as the double, and of these the closest one, as
    its digits and the number of them behind the point.  With 1074 places every double is
    exact. -/
def shortestDecimal (n : F64) : Nat → Nat → Nat × Nat
  | 0, places => (significand n * 10 ^ places / 2 ^ (1075 - scale n), places)
  | fuel + 1, places =>
    let unit := 2 ^ (1075 - scale n)
    let down := significand n * 10 ^ places / unit
    let remainder := significand n * 10 ^ places % unit
    match readsBack n places down, readsBack n places (down + 1) with
    | true, true => (if 2 * remainder < unit then down else down + 1, places)
    | true, false => (down, places)
    | false, true => (down + 1, places)
    | false, false => shortestDecimal n fuel (places + 1)

def signChars (n : F64) : List Char := if n.bits.msb then ['-'] else []

/-- A decimal with its digits behind the point padded to their number. -/
def decimalChars (decimal places : Nat) : List Char :=
  Nat.toDigits 10 (decimal / 10 ^ places) ++
    '.' :: (Nat.toDigits 10 (decimal % 10 ^ places)).leftpad places '0'

/-- `Display for f64` on numbers that are not whole. -/
def fractionChars (n : F64) : List Char :=
  if n.isNaN then "NaN".toList
  else if !isFinite n then signChars n ++ "inf".toList
  else
    let shortest := shortestDecimal n 1074 0
    signChars n ++ decimalChars shortest.1 shortest.2

/-- A number literal: whole numbers are written without a fraction. -/
def numberChars (n : F64) : List Char :=
  if isWhole n then integerChars (asI64 n) else fractionChars n

/-! ## §4 String literals -/

/-- How one character of a string literal is written. -/
def escapedChar (c : Char) : List Char :=
  if c = '\\' then "\\\\".toList
  else if c = '"' then "\\\"".toList
  else if c = '\n' then "\\n".toList
  else if c = '\r' then "\\r".toList
  else if c = '\t' then "\\t".toList
  else if c.toNat < 0x20 then "\\u\x7b".toList ++ Nat.toDigits 16 c.toNat ++ "\x7d".toList
  else [c]

/-! ## §5 What is written by the renderer -/

/-- No control character, and none of the characters is copied. -/
def Written (text : Text) : Prop :=
  ∀ glyph ∈ text, glyph.source = none ∧ ¬ IsControl glyph.char

theorem written_made {chars : List Char} :
    Written (made chars) ↔ ∀ c ∈ chars, ¬ IsControl c := by
  simp [Written, made]

theorem not_isControl_of_isDigit {c : Char} (h : c.isDigit = true) : ¬ IsControl c := by
  have hlow : 48 ≤ c.toNat := by
    simp only [Char.isDigit, Bool.and_eq_true, decide_eq_true_eq] at h
    exact h.1
  simp only [IsControl]
  omega

theorem not_isControl_toDigits {n : Nat} : ∀ c ∈ Nat.toDigits 10 n, ¬ IsControl c :=
  fun _ hc => not_isControl_of_isDigit (Nat.isDigit_of_mem_toDigits (by decide) (by decide) hc)

theorem written_displayName (kind : IntrinsicKind) :
    Written (made (displayName kind).toList) := by
  rw [written_made]
  cases kind <;> decide

theorem not_isControl_symbolName (symbol : WellKnownSymbol) :
    ∀ c ∈ (symbolName symbol).toList, ¬ IsControl c := by
  cases symbol <;> decide

theorem not_isControl_integerChars (value : Int) : ∀ c ∈ integerChars value, ¬ IsControl c := by
  cases value with
  | ofNat n => exact not_isControl_toDigits
  | negSucc n => exact List.forall_mem_cons.mpr ⟨by decide, not_isControl_toDigits⟩

theorem not_isControl_signChars (n : F64) : ∀ c ∈ signChars n, ¬ IsControl c := by
  unfold signChars
  split_ifs <;> decide

theorem not_isControl_decimalChars (decimal places : Nat) :
    ∀ c ∈ decimalChars decimal places, ¬ IsControl c := by
  unfold decimalChars
  refine List.forall_mem_append.mpr ⟨not_isControl_toDigits, ?_⟩
  refine List.forall_mem_cons.mpr ⟨by decide, fun c hc => ?_⟩
  rw [List.leftpad] at hc
  rcases List.mem_append.mp hc with hc | hc
  · rw [List.eq_of_mem_replicate hc]
    decide
  · exact not_isControl_toDigits c hc

/-- **Every number is written on one line.** -/
theorem written_numberChars (n : F64) : Written (made (numberChars n)) := by
  rw [written_made]
  unfold numberChars fractionChars
  split_ifs
  · exact not_isControl_integerChars _
  · decide
  · exact List.forall_mem_append.mpr ⟨not_isControl_signChars n, by decide⟩
  · exact List.forall_mem_append.mpr
      ⟨not_isControl_signChars n, not_isControl_decimalChars _ _⟩

/-- The hexadecimal digits of a control character. -/
theorem not_isControl_hexDigits {n : Nat} (h : n < 0x20) :
    ∀ c ∈ Nat.toDigits 16 n, ¬ IsControl c := by
  have hall : ∀ n < 0x20, ∀ c ∈ Nat.toDigits 16 n, ¬ IsControl c := by decide
  exact hall n h

/-- **Every character of a string literal is written on one line.** -/
theorem written_escapedChar (c : Char) : Written (made (escapedChar c)) := by
  rw [written_made]
  unfold escapedChar
  by_cases hcontrol : c.toNat < 0x20
  · rw [if_pos hcontrol]
    have hhex : ∀ d ∈ "\\u\x7b".toList ++ Nat.toDigits 16 c.toNat ++ "\x7d".toList,
        ¬ IsControl d :=
      List.forall_mem_append.mpr
        ⟨List.forall_mem_append.mpr ⟨by decide, not_isControl_hexDigits hcontrol⟩, by decide⟩
    split_ifs
    all_goals first | exact hhex | decide
  · rw [if_neg hcontrol]
    have hself : ∀ d ∈ [c], ¬ IsControl d := by simpa [IsControl] using hcontrol
    split_ifs
    all_goals first | exact hself | decide

end Typokat.Diagnostics
