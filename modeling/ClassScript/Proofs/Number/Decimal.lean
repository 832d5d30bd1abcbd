import ClassScript.Proofs.Number.Rounding
import ClassScript.Proofs.Source.LexicalGrammar
import Mathlib.Data.Nat.Cast.Field

/-! # Decimals and their texts

A decimal is read by its value alone, and its positional text is a numeral of the lexical grammar.
So are the text of a finite number without a sign and the text that is shown with a token, and the
number is read back from both.
-/
namespace ClassScript

open Source (Numeral)

theorem Source.isDigit_eq (c : Char) : Source.isDigit c = c.isDigit := by
  rw [Source.isDigit, Char.isDigit, Bool.decide_and]
  rfl

theorem Source.isDigit_toDigits (n : Nat) : ∀ c ∈ Nat.toDigits 10 n, Source.isDigit c = true := by
  intro c hc
  rw [Source.isDigit_eq]
  exact Number.isDigit_toDigits n c hc

namespace Decimal

/-- The exact value. -/
def value (d : Decimal) : ℚ := d.digits * 10 ^ d.exponent

theorem ratio_eq (d : Decimal) :
    ((d.digits * Nat.pow 10 d.exponent.toNat : Nat) : ℚ) / (Nat.pow 10 (-d.exponent).toNat : Nat) =
      d.value := by
  have hpow := zpow_eq_div 10 d.exponent
  rw [Nat.cast_ofNat] at hpow
  rw [value, hpow, Nat.cast_mul, mul_div_assoc]

theorem pow_ten_ne_zero (n : Nat) : Nat.pow 10 n ≠ 0 := (Nat.pow_pos (by decide)).ne'

theorem toNumber_congr {d d' : Decimal} (h : d.value = d'.value) : d.toNumber = d'.toNumber :=
  Number.ofRatio_congr (pow_ten_ne_zero _) (pow_ten_ne_zero _) (by rw [ratio_eq, ratio_eq, h])

theorem toNumber_of_value {d : Decimal} {x : Number} (hfinite : x.isFinite = true)
    (hsign : x.signBit = false) (h : d.value = x.magnitude) : d.toNumber = x :=
  Number.ofRatio_magnitude hfinite hsign (pow_ten_ne_zero _) (by rw [ratio_eq, h])

/-! ### Digits -/

theorem natOfDigits_toDigits (n : Nat) : natOfDigits (Nat.toDigits 10 n) = n :=
  Nat.ofDigitChars_ten_toDigits

theorem natOfDigits_append_zeros (cs : List Char) (n : Nat) :
    natOfDigits (cs ++ zeros n) = Nat.pow 10 n * natOfDigits cs :=
  (Nat.ofDigitChars_append 0).trans Nat.ofDigitChars_replicate_zero

theorem natOfDigits_zeros_append (n : Nat) (cs : List Char) :
    natOfDigits (zeros n ++ cs) = natOfDigits cs := by
  have happend : natOfDigits (zeros n ++ cs) = Nat.ofDigitChars 10 cs (natOfDigits (zeros n)) :=
    Nat.ofDigitChars_append 0
  have hzeros : natOfDigits (zeros n) = 10 ^ n * 0 := Nat.ofDigitChars_replicate_zero
  rw [happend, hzeros]
  rfl

/-- Zeros behind the point change nothing. -/
theorem value_ofDigits_zeros (whole : List Char) (n : Nat) :
    (ofDigits whole (zeros n)).value = natOfDigits whole := by
  have hpow : (10 : ℚ) ^ n ≠ 0 := pow_ne_zero n (by decide)
  have hlength : (zeros n).length = n := List.length_replicate
  have hcast : ((Nat.pow 10 n : Nat) : ℚ) = 10 ^ n := Nat.cast_pow 10 n
  simp only [ofDigits, value]
  rw [natOfDigits_append_zeros, hlength, zpow_neg, zpow_natCast, Nat.cast_mul, hcast, mul_comm,
    inv_mul_cancel_left₀ hpow]

/-- The digits around the point write the decimal. -/
theorem value_split (d : Decimal) : (ofDigits d.split.1 d.split.2).value = d.value := by
  have hdigits := natOfDigits_toDigits d.digits
  unfold split
  dsimp only
  split
  next hwhole =>
    have hcast : ((Nat.pow 10 d.exponent.toNat : Nat) : ℚ) = 10 ^ d.exponent := by
      rw [← Int.toNat_of_nonneg hwhole, zpow_natCast, Int.toNat_natCast]
      exact Nat.cast_pow 10 _
    have hzeros := value_ofDigits_zeros (Nat.toDigits 10 d.digits ++ zeros d.exponent.toNat) 0
    rw [natOfDigits_append_zeros, hdigits, Nat.cast_mul, hcast, mul_comm] at hzeros
    exact hzeros
  next hfraction =>
    split
    next hinside =>
      have hlength : (-((Nat.toDigits 10 d.digits).length -
          ((Nat.toDigits 10 d.digits).length - (-d.exponent).toNat) : Nat) : Int) =
            d.exponent := by
        omega
      rw [ofDigits, List.take_append_drop, hdigits, List.length_drop, hlength]
    next hbelow =>
      have hlength : (-((-d.exponent).toNat - (Nat.toDigits 10 d.digits).length +
          (Nat.toDigits 10 d.digits).length : Nat) : Int) = d.exponent := by
        omega
      have hzero : natOfDigits (['0'] ++ (zeros ((-d.exponent).toNat -
          (Nat.toDigits 10 d.digits).length) ++ Nat.toDigits 10 d.digits)) = d.digits := by
        exact (natOfDigits_zeros_append _ _).trans hdigits
      rw [ofDigits, hzero, List.length_append, zeros, List.length_replicate, hlength]

/-- A positional text is a numeral. -/
theorem numeral_positional (d : Decimal) : Numeral d.positional d.toNumber := by
  obtain ⟨⟨hne, hwhole⟩, hfraction⟩ := Number.split_digits d
  simp only [← Source.isDigit_eq] at hwhole hfraction
  have htext : d.positional =
      if d.split.2.isEmpty then d.split.1 else d.split.1 ++ '.' :: d.split.2 := rfl
  rw [htext, ← toNumber_congr d.value_split]
  by_cases hnone : d.split.2 = []
  · rw [hnone]
    exact .whole hne hwhole
  · rw [if_neg (by simpa using hnone)]
    exact .fraction hne hwhole hnone hfraction

end Decimal

namespace Number

variable {x : Number}

/-! ### The decimals of a number -/

theorem magnitude_of_integral (h : x.isIntegral = true) : x.magnitude = x.wholePart := by
  have hmod : x.numerator % x.denominator = 0 := of_decide_eq_true (Bool.and_eq_true_iff.1 h).2
  have hden : (x.denominator : ℚ) ≠ 0 := Nat.cast_ne_zero.2 (Nat.two_pow_pos _).ne'
  rw [magnitude, wholePart, Nat.cast_div (Nat.dvd_of_mod_eq_zero hmod) hden]

theorem value_exactDecimal (x : Number) : x.exactDecimal.value = x.magnitude := by
  have hten (p : Nat) : (10 : ℚ) ^ p = (Nat.pow 5 p : Nat) * (Nat.pow 2 p : Nat) := by
    have hcast : ((Nat.pow 10 p : Nat) : ℚ) = 10 ^ p := Nat.cast_pow 10 p
    rw [← hcast, ← Nat.cast_mul]
    exact congrArg Nat.cast (Nat.mul_pow 5 2 p)
  have hfive : ((Nat.pow 5 (-x.power).toNat : Nat) : ℚ) ≠ 0 :=
    Nat.cast_ne_zero.2 (Nat.pow_pos (by decide)).ne'
  simp only [exactDecimal, Decimal.value, magnitude, denominator]
  rw [zpow_neg, zpow_natCast, hten, ← div_eq_mul_inv, Nat.cast_mul, mul_comm (x.numerator : ℚ),
    mul_div_mul_left _ _ hfive]

theorem toNumber_neighbour {tie : Tie} {n : Nat} {d : Decimal} (h : neighbour? tie x n = some d) :
    d.toNumber = x := by
  have hchecked (first second : Decimal)
      (h : (if first.toNumber = x then some first else
        if second.toNumber = x then some second else none) = some d) : d.toNumber = x := by
    split at h
    next hfirst => exact Option.some.inj h ▸ hfirst
    split at h
    next hsecond => exact Option.some.inj h ▸ hsecond
    next => cases h
  exact hchecked _ _ h

theorem isZero_iff : x.isZero = true ↔ x.magnitude = 0 := by
  have hpow : (2 : ℚ) ^ x.power ≠ 0 := zpow_ne_zero _ two_ne_zero
  rw [magnitude_eq, mul_eq_zero, or_iff_left hpow, Nat.cast_eq_zero, isZero, decide_eq_true_iff,
    significand]
  split
  next hzero => exact and_iff_right hzero
  next hpos =>
    have : 0 < Nat.pow 2 52 := Nat.two_pow_pos 52
    omega

theorem abs_eq_self (hsign : x.signBit = false) : x.abs = x := by
  have hlt : x.bits.toNat < Nat.pow 2 63 := by simpa [signBit] using hsign
  rw [abs, Nat.mod_eq_of_lt hlt, UInt64.ofNat_toNat]

variable (hfinite : x.isFinite = true) (hsign : x.signBit = false)

include hfinite hsign

/-- The shortest decimal is read back. -/
theorem toNumber_shortest (tie : Tie) : (x.shortest tie).toNumber = x := by
  rw [shortest]
  split
  next hzero =>
    apply Decimal.toNumber_of_value hfinite hsign
    rw [isZero_iff.1 hzero]
    simp [Decimal.value]
  next =>
    rw [abs_eq_self hsign]
    cases hshort : (List.range 17).findSome? fun i => neighbour? tie x (i + 1) with
    | none => exact Decimal.toNumber_of_value hfinite hsign (value_exactDecimal x)
    | some d =>
      obtain ⟨i, -, hi⟩ := List.exists_of_findSome?_eq_some hshort
      exact toNumber_neighbour hi

omit hfinite in
theorem signed_eq (cs : List Char) : (x.signed cs).toList = cs := by
  simp [signed, hsign]

theorem numeral_shortestText : Numeral x.shortestText.toList x := by
  have hnumeral := (x.shortest .away).numeral_positional
  rw [toNumber_shortest hfinite hsign] at hnumeral
  rw [shortestText, isNaN_of_isFinite hfinite, if_neg Bool.false_ne_true, if_pos hfinite,
    signed_eq hsign]
  exact hnumeral

/-- The digits of an integral number, with zeros behind the point. -/
theorem toNumber_digits (hintegral : x.isIntegral = true) (n : Nat) :
    (Decimal.ofDigits (Nat.toDigits 10 x.wholePart) (Decimal.zeros n)).toNumber = x := by
  apply Decimal.toNumber_of_value hfinite hsign
  rw [Decimal.value_ofDigits_zeros, Decimal.natOfDigits_toDigits, magnitude_of_integral hintegral]

/-- What is printed for a number is a numeral for it. -/
theorem numeral_text : Numeral x.text.toList x := by
  rw [text]
  split
  next hintegral =>
    have hnumeral := Numeral.whole Nat.toDigits_ne_nil (Source.isDigit_toDigits x.wholePart)
    have hzeros : Decimal.zeros 0 = [] := rfl
    rw [← hzeros, toNumber_digits hfinite hsign hintegral] at hnumeral
    rwa [signed_eq hsign]
  next => exact numeral_shortestText hfinite hsign

/-- What is shown with a token is a numeral for its number. -/
theorem numeral_literalText : Numeral x.literalText.toList x := by
  rw [literalText]
  split
  next hinteger =>
    have hintegral : x.isIntegral = true := (Bool.and_eq_true_iff.1 hinteger).1
    have hplace : ∀ c ∈ ['0'], Source.isDigit c = true := List.forall_mem_singleton.2 rfl
    have hnumeral := Numeral.fraction Nat.toDigits_ne_nil (Source.isDigit_toDigits x.wholePart)
      (List.cons_ne_nil '0' []) hplace
    have hzeros : Decimal.zeros 1 = ['0'] := rfl
    rw [← hzeros, toNumber_digits hfinite hsign hintegral, hzeros] at hnumeral
    dsimp only
    split
    · rwa [String.toList_ofList]
    · rwa [signed_eq hsign]
  next => exact numeral_shortestText hfinite hsign

end Number

end ClassScript
