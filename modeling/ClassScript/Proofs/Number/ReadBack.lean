import ClassScript.Proofs.Number.Decimal
import ClassScript.Proofs.Source.Separation
import ClassScript.Token.Text

/-! # Printed numbers read back

The text of a finite number without a sign is one token of a source text, and its literal is the
number again.  So is the literal that is shown with a token.  An integral value below `2 ^ 63` is
shown there by the 64-bit integer it is converted to, and the conversion is exact.
-/
namespace ClassScript

namespace Source

/-- A numeral alone is one token. -/
theorem items_of_numeral {text : List Char} {x : Number} (h : Numeral text x) :
    items (String.ofList text) =
      [.token ⟨.number, String.ofList text, some (.number x), 1⟩, .token (.endOfInput 1)] := by
  have hlexeme : Lexeme text .number (some (.number x)) := .number h
  have hfront : ¬ Skips (text ++ []) := by
    obtain ⟨c, cs, rfl⟩ := List.exists_cons_of_ne_nil hlexeme.ne_nil
    have hc := h.start
    rw [List.append_nil, skips_cons, not_isBlank_of_isDigit hc]
    rintro (hblank | ⟨rfl, -⟩)
    · cases hblank
    · cases hc
  have hline : text.count '\n' = 0 := by
    rw [List.count_eq_zero]
    intro hmem
    cases h.no_blank '\n' hmem
  have htakes (line : Nat) : Takes line text []
      (some (.token ⟨.number, String.ofList text, some (.number x), line⟩)) := by
    refine .token hfront hlexeme ?_
    intro text' kind' literal' _ hprefix
    rw [List.append_nil] at hprefix
    exact hprefix.length_le
  have hlexes : Lexes 1 _ _ := .step (htakes _) .finish
  rw [hline, List.append_nil] at hlexes
  rw [items, String.toList_ofList, ← hlexes.itemsFrom_eq]
  rfl

end Source

namespace Number

/-- The value of a finite number. -/
def value (x : Number) : ℚ := if x.signBit then -x.magnitude else x.magnitude

/-- The 64-bit integer that a number is converted to: rounded towards zero, or the nearest end of
the range; NaN becomes zero. -/
def toInt64 (x : Number) : Int64 :=
  if x.isNaN then 0
  else Int64.ofIntClamp (if x.signBit then -(x.wholePart : Int) else x.wholePart)

theorem toInt_toInt64 {x : Number} (hintegral : x.isIntegral = true)
    (hsmall : x.wholePart < Nat.pow 2 63) :
    x.toInt64.toInt = if x.signBit then -(x.wholePart : Int) else x.wholePart := by
  have hnan := isNaN_of_isFinite (Bool.and_eq_true_iff.1 hintegral).1
  have hleast : Int64.minValue.toInt = -(Nat.pow 2 63 : Nat) := rfl
  have hgreatest : Int64.maxValue.toInt = (Nat.pow 2 63 : Nat) - 1 := rfl
  rw [toInt64, hnan, if_neg Bool.false_ne_true]
  apply Int64.toInt_ofIntClamp
  · rw [hleast]
    split <;> omega
  · rw [hgreatest]
    split <;> omega

/-- The conversion of an integral number in the range is exact. -/
theorem toInt64_exact {x : Number} (hintegral : x.isIntegral = true)
    (hsmall : x.wholePart < Nat.pow 2 63) : (x.toInt64.toInt : ℚ) = x.value := by
  rw [toInt_toInt64 hintegral hsmall, value, magnitude_of_integral hintegral]
  split <;> simp

theorem toString_natCast (n : Nat) : toString (n : Int) = String.ofList (Nat.toDigits 10 n) :=
  Nat.repr_eq_ofList_toDigits

theorem toString_neg {n : Nat} (hn : n ≠ 0) :
    toString (-n : Int) = String.ofList ('-' :: Nat.toDigits 10 n) := by
  obtain ⟨n, rfl⟩ := Nat.exists_eq_succ_of_ne_zero hn
  have hrepr : toString (-(n + 1 : Nat) : Int) = "-" ++ (n + 1).repr := rfl
  rw [hrepr, Nat.repr_eq_ofList_toDigits]
  apply String.toList_inj.1
  simp

/-- The literal of an integral number in the range is the integer it is converted to. -/
theorem literalText_eq {x : Number} (hintegral : x.isIntegral = true)
    (hsmall : x.wholePart < Nat.pow 2 63) : x.literalText = toString x.toInt64.toInt ++ ".0" := by
  have hpoint (cs : List Char) : String.ofList (cs ++ ['.', '0']) = String.ofList cs ++ ".0" :=
    String.ofList_append
  have hzero : x.isZero = true ↔ x.wholePart = 0 := by
    rw [isZero_iff, magnitude_of_integral hintegral, Nat.cast_eq_zero]
  rw [literalText, if_pos (by simp [hintegral, hsmall]), toInt_toInt64 hintegral hsmall]
  dsimp only
  split
  next hnone =>
    rw [hzero.1 hnone]
    split <;> rfl
  next hsome =>
    rw [signed]
    split
    · rw [toString_neg (mt hzero.2 hsome), ← hpoint]
      rfl
    · rw [toString_natCast, ← hpoint]

/-! ### Reading back -/

/-- What is printed for a finite number without a sign is one token of a source text that is read as
this number, and so is the literal that is shown with a token.  For an integral number below
`2 ^ 63`, with a sign or without, the literal is the integer that the number is converted to, which
is its exact value. -/
theorem reads_back {x : Number} (hfinite : x.isFinite = true) (hsign : x.signBit = false) :
    Source.items x.text =
        [.token ⟨.number, x.text, some (.number x), 1⟩, .token (.endOfInput 1)] ∧
      (∀ lexeme line, ∃ shown,
        Token.text ⟨.number, lexeme, some (.number x), line⟩ =
            "NUMBER" ++ " " ++ lexeme ++ " " ++ shown ∧
          Source.items shown =
            [.token ⟨.number, shown, some (.number x), 1⟩, .token (.endOfInput 1)]) ∧
      ∀ y : Number, y.isIntegral = true → y.wholePart < Nat.pow 2 63 →
        y.literalText = toString y.toInt64.toInt ++ ".0" ∧ (y.toInt64.toInt : ℚ) = y.value := by
  have htext := Source.items_of_numeral (numeral_text hfinite hsign)
  have hliteral := Source.items_of_numeral (numeral_literalText hfinite hsign)
  rw [String.ofList_toList] at htext hliteral
  exact ⟨htext, fun lexeme line => ⟨x.literalText, rfl, hliteral⟩, fun y hintegral hsmall =>
    ⟨literalText_eq hintegral hsmall, toInt64_exact hintegral hsmall⟩⟩

/-- The number nearest to one tenth. -/
theorem reads_back_tenth :
    Source.items "0.1" = [.token ⟨.number, "0.1", some (.number ⟨0x3FB999999999999A⟩), 1⟩,
      .token (.endOfInput 1)] := by
  have htext : (⟨0x3FB999999999999A⟩ : Number).text = "0.1" := by decide +kernel
  have hback := (reads_back (x := ⟨0x3FB999999999999A⟩) (by decide +kernel) (by decide +kernel)).1
  rwa [htext] at hback

/-- `2 ^ 63` is out of the range of the integers. -/
example : (⟨0x43E0000000000000⟩ : Number).literalText = "9223372036854776000" := by decide +kernel

end Number

end ClassScript
