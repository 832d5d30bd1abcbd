import ClassScript.Number.Decimal
import Mathlib.Algebra.Order.Field.Rat
import Mathlib.Data.Int.Log
import Mathlib.Data.Rat.Floor

/-! # Rounding a quotient

A quotient is rounded by its value alone, however it is written as a fraction, and the exact value
of a finite number is rounded to this number: its 53 bits are kept, fewer if it is subnormal.
-/
namespace ClassScript

/-- A power with an integer exponent as a fraction of natural numbers. -/
theorem zpow_eq_div (b : Nat) (e : Int) :
    (b : ℚ) ^ e = (Nat.pow b e.toNat : Nat) / (Nat.pow b (-e).toNat : Nat) := by
  obtain ⟨n, rfl | rfl⟩ := e.eq_nat_or_neg <;> simp

theorem two_zpow_eq_div (e : Int) :
    (2 : ℚ) ^ e = (Nat.pow 2 e.toNat : Nat) / (Nat.pow 2 (-e).toNat : Nat) := by
  rw [← zpow_eq_div, Nat.cast_ofNat]

theorem roundDiv_mul_left {k : Nat} (hk : 0 < k) (num den : Nat) :
    roundDiv (k * num) (k * den) = roundDiv num den := by
  have hlt (a b : Nat) : k * a < k * b ↔ a < b := Nat.mul_lt_mul_left hk
  simp only [roundDiv, Nat.mul_div_mul_left num den hk, Nat.mul_mod_mul_left, Nat.mul_left_comm 2 k,
    hlt]

theorem roundDiv_congr {num den num' den' : Nat} (hden : den ≠ 0) (hden' : den' ≠ 0)
    (h : (num : ℚ) / den = num' / den') : roundDiv num den = roundDiv num' den' := by
  have hcross : num * den' = num' * den := by
    rw [div_eq_div_iff (Nat.cast_ne_zero.2 hden) (Nat.cast_ne_zero.2 hden')] at h
    exact_mod_cast h
  rw [← roundDiv_mul_left (Nat.pos_of_ne_zero hden') num den, Nat.mul_comm den' num, hcross,
    Nat.mul_comm num' den, Nat.mul_comm den' den, roundDiv_mul_left (Nat.pos_of_ne_zero hden)]

theorem roundDiv_of_eq {n num den : Nat} (hden : den ≠ 0) (h : (num : ℚ) / den = n) :
    roundDiv num den = n := by
  have hone : (num : ℚ) / den = n / (1 : Nat) := by rw [h, Nat.cast_one, div_one]
  rw [roundDiv_congr hden Nat.one_ne_zero hone]
  simp [roundDiv, Nat.mod_one]

namespace Number

variable {num den num' den' : Nat}

/-- `2 ^ n.log2` is the power of two below `n`. -/
theorem log2_bounds {n : Nat} (hn : n ≠ 0) :
    (2 : ℚ) ^ (n.log2 : Int) ≤ n ∧ (n : ℚ) < 2 ^ ((n.log2 : Int) + 1) := by
  have hle := Nat.log2_self_le hn
  have hlt := Nat.lt_log2_self (n := n)
  constructor
  · exact_mod_cast hle
  · exact_mod_cast hlt

/-- Being below a power of two, in natural numbers. -/
theorem div_lt_zpow_iff (num : Nat) (hden : den ≠ 0) (e : Int) :
    (num : ℚ) / den < 2 ^ e ↔ num * Nat.pow 2 (-e).toNat < den * Nat.pow 2 e.toNat := by
  have hdenpos : (0 : ℚ) < den := Nat.cast_pos.2 (Nat.pos_of_ne_zero hden)
  have hpos : (0 : ℚ) < (Nat.pow 2 (-e).toNat : Nat) := Nat.cast_pos.2 (Nat.two_pow_pos _)
  rw [two_zpow_eq_div, div_lt_div_iff₀ hdenpos hpos, Nat.mul_comm den]
  norm_cast

theorem ratio_pos (hnum : num ≠ 0) (hden : den ≠ 0) : (0 : ℚ) < num / den :=
  div_pos (Nat.cast_pos.2 (Nat.pos_of_ne_zero hnum)) (Nat.cast_pos.2 (Nat.pos_of_ne_zero hden))

/-- The difference of the logarithms is off by one at most. -/
theorem log_near (hnum : num ≠ 0) (hden : den ≠ 0) :
    (num.log2 : Int) - den.log2 - 1 ≤ Int.log 2 ((num : ℚ) / den) ∧
      Int.log 2 ((num : ℚ) / den) < (num.log2 : Int) - den.log2 + 1 := by
  obtain ⟨hnumlow, hnumhigh⟩ := log2_bounds hnum
  obtain ⟨hdenlow, hdenhigh⟩ := log2_bounds hden
  have hdenpos : (0 : ℚ) < den := Nat.cast_pos.2 (Nat.pos_of_ne_zero hden)
  have hpos := ratio_pos hnum hden
  have hpow (e : Int) : (0 : ℚ) ≤ 2 ^ e := (zpow_pos two_pos e).le
  have hadd (a b : Int) : (2 : ℚ) ^ (a + b) = 2 ^ a * 2 ^ b := zpow_add₀ two_ne_zero a b
  let e : Int := (num.log2 : Int) - den.log2
  constructor
  · rw [← Int.zpow_le_iff_le_log one_lt_two hpos, Nat.cast_ofNat, le_div_iff₀ hdenpos]
    calc (2 : ℚ) ^ (e - 1) * den ≤ 2 ^ (e - 1) * 2 ^ ((den.log2 : Int) + 1) :=
          mul_le_mul_of_nonneg_left hdenhigh.le (hpow _)
      _ = 2 ^ (num.log2 : Int) := by rw [← hadd]; congr 1; omega
      _ ≤ num := hnumlow
  · rw [← Int.lt_zpow_iff_log_lt one_lt_two hpos, Nat.cast_ofNat, div_lt_iff₀ hdenpos]
    calc (num : ℚ) < 2 ^ ((num.log2 : Int) + 1) := hnumhigh
      _ = 2 ^ (e + 1) * 2 ^ (den.log2 : Int) := by rw [← hadd]; congr 1; omega
      _ ≤ 2 ^ (e + 1) * den := mul_le_mul_of_nonneg_left hdenlow (hpow _)

theorem binade_eq_log (hnum : num ≠ 0) (hden : den ≠ 0) :
    binade num den = Int.log 2 ((num : ℚ) / den) := by
  obtain ⟨hlow, hhigh⟩ := log_near hnum hden
  let e : Int := (num.log2 : Int) - den.log2
  have htest := div_lt_zpow_iff num hden e
  rw [← Nat.cast_ofNat, Int.lt_zpow_iff_log_lt one_lt_two (ratio_pos hnum hden)] at htest
  have hbinade : binade num den =
      if num * Nat.pow 2 (-e).toNat < den * Nat.pow 2 e.toNat then e - 1 else e := rfl
  rw [hbinade]
  split
  next hbelow =>
    have := htest.2 hbelow
    omega
  next hnot =>
    have := mt htest.1 hnot
    omega

/-- The quotient in units of `2 ^ q`. -/
theorem scaled_eq (q : Int) :
    ((num * Nat.pow 2 (-q).toNat : Nat) : ℚ) / (den * Nat.pow 2 q.toNat : Nat) =
      (num : ℚ) / den / 2 ^ q := by
  rw [two_zpow_eq_div, Nat.cast_mul, Nat.cast_mul, mul_div_mul_comm, div_div_eq_mul_div,
    mul_div_assoc]

theorem scaled_ne_zero (hden : den ≠ 0) (q : Int) : den * Nat.pow 2 q.toNat ≠ 0 :=
  Nat.mul_ne_zero hden (Nat.two_pow_pos _).ne'

theorem wordOfRatio_congr (hnum : num ≠ 0) (hden : den ≠ 0) (hnum' : num' ≠ 0) (hden' : den' ≠ 0)
    (h : (num : ℚ) / den = num' / den') : wordOfRatio num den = wordOfRatio num' den' := by
  have hunit : unitPower num den = unitPower num' den' := by
    rw [unitPower, unitPower, binade_eq_log hnum hden, binade_eq_log hnum' hden', h]
  have hround := roundDiv_congr (scaled_ne_zero hden (unitPower num den))
    (scaled_ne_zero hden' (unitPower num den)) (by rw [scaled_eq, scaled_eq, h])
  simp only [wordOfRatio, ← hunit, hround]

/-- Rounding depends on the value of the quotient only. -/
theorem ofRatio_congr (hden : den ≠ 0) (hden' : den' ≠ 0) (h : (num : ℚ) / den = num' / den') :
    ofRatio num den = ofRatio num' den' := by
  have hzero : num = 0 ↔ num' = 0 := by
    have hq : (den : ℚ) ≠ 0 := Nat.cast_ne_zero.2 hden
    have hq' : (den' : ℚ) ≠ 0 := Nat.cast_ne_zero.2 hden'
    have hiff := congrArg (· = (0 : ℚ)) h
    simpa [hq, hq'] using hiff
  by_cases hnum : num = 0
  · rw [ofRatio, if_pos hnum, ofRatio, if_pos (hzero.1 hnum)]
  · have hnum' : num' ≠ 0 := mt hzero.2 hnum
    rw [ofRatio, if_neg hnum, ofRatio, if_neg hnum', wordOfRatio_congr hnum hden hnum' hden' h]

/-! ### The value of a finite number -/

/-- The exact value of a finite number without its sign. -/
def magnitude (x : Number) : ℚ := x.numerator / x.denominator

/-- A significand and an exponent as finite numbers have them: at most 53 bits, and no fewer above
the bottom of the range. -/
structure Canonical (m : Nat) (p : Int) : Prop where
  lt : m < Nat.pow 2 53
  bottom : -1074 ≤ p
  normal : p = -1074 ∨ Nat.pow 2 52 ≤ m

theorem canonical (x : Number) : Canonical x.significand x.power := by
  have hfraction : x.fractionField < Nat.pow 2 52 := Nat.mod_lt _ (Nat.two_pow_pos 52)
  have hdouble : Nat.pow 2 53 = Nat.pow 2 52 + Nat.pow 2 52 := rfl
  unfold significand power
  split
  · exact ⟨by omega, by omega, by omega⟩
  · exact ⟨by omega, by omega, by omega⟩

theorem magnitude_eq (x : Number) : x.magnitude = x.significand * 2 ^ x.power := by
  rw [magnitude, numerator, denominator, two_zpow_eq_div, Nat.cast_mul, mul_div_assoc]

/-- All bits of a canonical significand are kept. -/
theorem Canonical.unitPower_eq {m : Nat} {p : Int} (h : Canonical m p) (hm : m ≠ 0)
    (hnum : num ≠ 0) (hden : den ≠ 0) (hvalue : (num : ℚ) / den = m * 2 ^ p) :
    unitPower num den = p := by
  have hmpos : (0 : ℚ) < m := Nat.cast_pos.2 (Nat.pos_of_ne_zero hm)
  have hpow : (0 : ℚ) < 2 ^ p := zpow_pos two_pos p
  have hpos : (0 : ℚ) < m * 2 ^ p := mul_pos hmpos hpow
  have hadd (k : Nat) : (2 : ℚ) ^ (p + k) = (Nat.pow 2 k : Nat) * 2 ^ p := by
    rw [zpow_add₀ two_ne_zero, mul_comm, zpow_natCast]
    norm_cast
  have hhigh : Int.log 2 ((m : ℚ) * 2 ^ p) < p + 53 := by
    rw [← Int.lt_zpow_iff_log_lt one_lt_two hpos, Nat.cast_ofNat]
    have hbelow : (m : ℚ) < (Nat.pow 2 53 : Nat) := Nat.cast_lt.2 h.lt
    exact (hadd 53) ▸ mul_lt_mul_of_pos_right hbelow hpow
  rw [unitPower, binade_eq_log hnum hden, hvalue]
  rcases h.normal with hbottom | hnormal
  · omega
  · have hlow : p + 52 ≤ Int.log 2 ((m : ℚ) * 2 ^ p) := by
      rw [← Int.zpow_le_iff_le_log one_lt_two hpos, Nat.cast_ofNat]
      have habove : ((Nat.pow 2 52 : Nat) : ℚ) ≤ m := Nat.cast_le.2 hnormal
      exact (hadd 52) ▸ mul_le_mul_of_nonneg_right habove hpow.le
    have := h.bottom
    omega

theorem Canonical.wordOfRatio_eq {m : Nat} {p : Int} (h : Canonical m p) (hm : m ≠ 0)
    (hnum : num ≠ 0) (hden : den ≠ 0) (hvalue : (num : ℚ) / den = m * 2 ^ p) :
    wordOfRatio num den = min ((p + 1074).toNat * Nat.pow 2 52 + m) infinityWord := by
  have hpow : (2 : ℚ) ^ p ≠ 0 := zpow_ne_zero p two_ne_zero
  have hround : roundDiv (num * Nat.pow 2 (-p).toNat) (den * Nat.pow 2 p.toNat) = m :=
    roundDiv_of_eq (scaled_ne_zero hden p) (by rw [scaled_eq, hvalue, mul_div_cancel_right₀ _ hpow])
  simp only [wordOfRatio, h.unitPower_eq hm hnum hden hvalue, hround]

theorem exponentField_eq {x : Number} (hsign : x.signBit = false) :
    x.exponentField = x.bits.toNat / Nat.pow 2 52 ∧ x.exponentField < Nat.pow 2 11 := by
  have hbits : x.bits.toNat < Nat.pow 2 52 * Nat.pow 2 11 := by
    simpa [signBit] using hsign
  have hexponent := Nat.div_lt_of_lt_mul hbits
  exact ⟨Nat.mod_eq_of_lt hexponent, Nat.mod_lt _ (Nat.two_pow_pos 11)⟩

/-- The word of a number without a sign, from its significand and exponent. -/
theorem word_eq {x : Number} (hsign : x.signBit = false) :
    (x.power + 1074).toNat * Nat.pow 2 52 + x.significand = x.bits.toNat := by
  have hdivide : Nat.pow 2 52 * x.exponentField + x.fractionField = x.bits.toNat := by
    rw [(exponentField_eq hsign).1]
    exact Nat.div_add_mod _ _
  rw [← hdivide]
  unfold significand power
  split
  next hzero => simp [hzero]
  next hpos =>
    obtain ⟨e, he⟩ := Nat.exists_eq_succ_of_ne_zero hpos
    have hunits : ((max x.exponentField 1 : Nat) - 1075 + 1074 : Int).toNat = e := by omega
    rw [hunits, he, Nat.mul_comm (Nat.pow 2 52), Nat.succ_mul, Nat.add_assoc]

theorem word_lt_infinity {x : Number} (hfinite : x.isFinite = true) (hsign : x.signBit = false) :
    x.bits.toNat < infinityWord := by
  obtain ⟨hexponent, hlt⟩ := exponentField_eq hsign
  have hne : x.exponentField ≠ 2047 := of_decide_eq_true hfinite
  have hdiv : x.bits.toNat / Nat.pow 2 52 < 2047 := by
    have : Nat.pow 2 11 = 2048 := rfl
    omega
  exact (Nat.div_lt_iff_lt_mul (Nat.two_pow_pos 52)).1 hdiv

/-- A finite number is what its exact value is rounded to. -/
theorem ofRatio_magnitude {x : Number} (hfinite : x.isFinite = true) (hsign : x.signBit = false)
    (hden : den ≠ 0) (h : (num : ℚ) / den = x.magnitude) : ofRatio num den = x := by
  have hword := word_eq hsign
  have hcanonical := x.canonical
  rw [magnitude_eq] at h
  by_cases hzero : x.significand = 0
  · have hnum : num = 0 := by simpa [hzero, hden] using h
    have hpower : x.power = -1074 := by
      have := hcanonical.normal
      have : 0 < Nat.pow 2 52 := Nat.two_pow_pos 52
      omega
    have hbits : x.bits = 0 := UInt64.toNat_inj.1 (by simpa [hzero, hpower] using hword.symm)
    rw [ofRatio, if_pos hnum]
    exact congrArg mk hbits.symm
  · have hnum : num ≠ 0 := by
      rintro rfl
      simp [hzero, zpow_ne_zero] at h
    rw [ofRatio, if_neg hnum, hcanonical.wordOfRatio_eq hzero hnum hden h, hword,
      Nat.min_eq_left (word_lt_infinity hfinite hsign).le, UInt64.ofNat_toNat]

end Number

end ClassScript
