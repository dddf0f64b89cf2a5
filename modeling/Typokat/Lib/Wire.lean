import Mathlib

/-!
# Self-Delimiting Encodings

Formats that concatenate the encodings of their parts.  An encoding is self-delimiting when
its end can be told from its bytes; then whatever follows it can be told as well, and a
concatenation of such encodings determines all of its parts.

## Main Results

- `SelfDelimiting.fixed` : injective encodings of one length
- `SelfDelimiting.tagged` : a tag byte in front of self-delimiting variants
- `SelfDelimiting.counted` : a list behind its length
-/

namespace Typokat.Lib

open List

variable {α β : Type*}

/-- The encoding of a valid value, followed by anything, determines the value and what
follows. -/
structure SelfDelimiting (valid : α → Prop) (encode : α → List UInt8) : Prop where
  split : ∀ {a b : α} {rest rest' : List UInt8}, valid a → valid b →
    encode a ++ rest = encode b ++ rest' → a = b ∧ rest = rest'

namespace SelfDelimiting

variable {valid : α → Prop} {encode : α → List UInt8}

/-- A whole message determines the value. -/
theorem eq_of_encode_eq (h : SelfDelimiting valid encode) {a b : α} (ha : valid a) (hb : valid b)
    (heq : encode a = encode b) : a = b :=
  (h.split ha hb (congrArg (· ++ []) heq)).1

/-- Encodings of one length that tell the values apart. -/
theorem fixed {length : Nat} (hlength : ∀ a, valid a → (encode a).length = length)
    (hinjective : ∀ a b, valid a → valid b → encode a = encode b → a = b) :
    SelfDelimiting valid encode := by
  constructor
  intro a b rest rest' ha hb h
  obtain ⟨heq, hrest⟩ := append_inj h ((hlength a ha).trans (hlength b hb).symm)
  exact ⟨hinjective a b ha hb heq, hrest⟩

/-- A tag byte in front: variants of one tag have to be told apart, and no others. -/
theorem tagged {tag : α → UInt8} {payload : α → List UInt8}
    (h : ∀ {a b : α} {rest rest' : List UInt8}, valid a → valid b → tag a = tag b →
      payload a ++ rest = payload b ++ rest' → a = b ∧ rest = rest') :
    SelfDelimiting valid (fun a => tag a :: payload a) := by
  constructor
  intro a b rest rest' ha hb heq
  obtain ⟨htag, hpayload⟩ := cons.inj heq
  exact h ha hb htag hpayload

/-- An optional value behind a flag. -/
theorem optional (h : SelfDelimiting valid encode) {flag : Bool → UInt8}
    (hflag : flag true ≠ flag false) :
    SelfDelimiting (fun value : Option α => ∀ a ∈ value, valid a)
      (fun value => flag value.isSome :: value.elim [] encode) := by
  refine tagged (fun {a b rest rest'} ha hb htag hpayload => ?_)
  cases a with
  | none =>
    cases b with
    | none => exact ⟨rfl, hpayload⟩
    | some b => exact absurd htag.symm hflag
  | some a =>
    cases b with
    | none => exact absurd htag hflag
    | some b =>
      obtain ⟨heq, hrest⟩ := h.split (ha a rfl) (hb b rfl) hpayload
      exact ⟨congrArg some heq, hrest⟩

/-- Lists of one length are determined by the concatenation of their entries. -/
theorem flatMap (h : SelfDelimiting valid encode) {entries others : List α}
    {rest rest' : List UInt8} (hentries : ∀ entry ∈ entries, valid entry)
    (hothers : ∀ entry ∈ others, valid entry) (hlength : entries.length = others.length)
    (heq : entries.flatMap encode ++ rest = others.flatMap encode ++ rest') :
    entries = others ∧ rest = rest' := by
  induction entries generalizing others with
  | nil =>
    have hnil : others = [] := eq_nil_of_length_eq_zero hlength.symm
    subst hnil
    exact ⟨rfl, heq⟩
  | cons entry entries ih =>
    cases others with
    | nil => cases hlength
    | cons other others =>
      obtain ⟨hentry, hentries⟩ := forall_mem_cons.mp hentries
      obtain ⟨hother, hothers⟩ := forall_mem_cons.mp hothers
      rw [flatMap_cons, flatMap_cons, append_assoc, append_assoc] at heq
      obtain ⟨hhead, htail⟩ := h.split hentry hother heq
      obtain ⟨hrows, hrest⟩ := ih hentries hothers (Nat.succ.inj hlength) htail
      exact ⟨by rw [hhead, hrows], hrest⟩

/-- A list behind its length, as long as the length fits its encoding. -/
theorem counted {bound : Nat} {count : Nat → List UInt8} (hcount : SelfDelimiting (· < bound) count)
    (h : SelfDelimiting valid encode) :
    SelfDelimiting (fun entries : List α => entries.length < bound ∧ ∀ entry ∈ entries, valid entry)
      (fun entries => count entries.length ++ entries.flatMap encode) := by
  constructor
  intro entries others rest rest' hentries hothers heq
  simp only [append_assoc] at heq
  obtain ⟨hlength, hrest⟩ := hcount.split hentries.1 hothers.1 heq
  exact h.flatMap hentries.2 hothers.2 hlength hrest

end SelfDelimiting

/-! ## §1 Numbers as bytes -/

/-- The low bytes of a number, the lowest first. -/
def leBytes : Nat → Nat → List UInt8
  | 0, _ => []
  | width + 1, value => UInt8.ofNat value :: leBytes width (value / 256)

/-- The low bytes of a number, the highest first. -/
def beBytes (width value : Nat) : List UInt8 := (leBytes width value).reverse

@[simp] theorem length_leBytes (width value : Nat) : (leBytes width value).length = width := by
  induction width generalizing value with
  | zero => rfl
  | succ width ih => rw [leBytes, length_cons, ih]

@[simp] theorem length_beBytes (width value : Nat) : (beBytes width value).length = width := by
  rw [beBytes, length_reverse, length_leBytes]

/-- Numbers that fit the width are told apart. -/
theorem leBytes_inj {width value other : Nat} (hvalue : value < 256 ^ width)
    (hother : other < 256 ^ width) (h : leBytes width value = leBytes width other) :
    value = other := by
  induction width generalizing value other with
  | zero =>
    rw [Nat.pow_zero] at hvalue hother
    omega
  | succ width ih =>
    rw [Nat.pow_succ] at hvalue hother
    obtain ⟨hlow, hhigh⟩ := cons.inj h
    have hdigit : value % 256 = other % 256 := by
      have hnat := congrArg UInt8.toNat hlow
      simpa using hnat
    have hquotient : value / 256 = other / 256 :=
      ih (Nat.div_lt_of_lt_mul (by omega)) (Nat.div_lt_of_lt_mul (by omega)) hhigh
    omega

theorem selfDelimiting_leBytes (width : Nat) :
    SelfDelimiting (· < 256 ^ width) (leBytes width) :=
  .fixed (fun value _ => length_leBytes width value) (fun _ _ => leBytes_inj)

theorem selfDelimiting_beBytes (width : Nat) :
    SelfDelimiting (· < 256 ^ width) (beBytes width) :=
  .fixed (fun value _ => length_beBytes width value)
    (fun _ _ hvalue hother h => leBytes_inj hvalue hother (reverse_injective h))

end Typokat.Lib
