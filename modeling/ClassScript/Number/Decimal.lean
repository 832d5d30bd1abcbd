import ClassScript.Number.Basic

/-! # Decimals read as numbers

A decimal is a natural number times a power of ten.  Reading it rounds the exact quotient once, to
the nearest number, a half going to the even word.
-/
namespace ClassScript

/-- The quotient rounded to the nearest natural number, a half going to the even neighbour. -/
def roundDiv (num den : Nat) : Nat :=
  let q := num / den
  let r := num % den
  if 2 * r < den then q else if den < 2 * r then q + 1 else q + q % 2

namespace Number

/-- The exponent `e` with `2 ^ e ≤ num / den < 2 ^ (e + 1)`. -/
def binade (num den : Nat) : Int :=
  let e : Int := (num.log2 : Int) - (den.log2 : Int)
  if num * Nat.pow 2 (-e).toNat < den * Nat.pow 2 e.toNat then e - 1 else e

/-- The exponent of the unit in which a quotient is rounded: 53 bits are kept, fewer only at the
bottom of the range. -/
def unitPower (num den : Nat) : Int := max (binade num den - 52) (-1074)

/-- The word nearest to the quotient.  Words of one sign are ordered like their numbers, so the
rounded significand may simply carry into the exponent field. -/
def wordOfRatio (num den : Nat) : Nat :=
  let q := unitPower num den
  let m := roundDiv (num * Nat.pow 2 (-q).toNat) (den * Nat.pow 2 q.toNat)
  min ((q + 1074).toNat * Nat.pow 2 52 + m) infinityWord

/-- The number nearest to `num / den`. -/
def ofRatio (num den : Nat) : Number :=
  if num = 0 then ⟨0⟩ else ⟨UInt64.ofNat (wordOfRatio num den)⟩

end Number

/-- The value `digits * 10 ^ exponent`. -/
structure Decimal where
  digits : Nat
  exponent : Int
deriving DecidableEq

namespace Decimal

def toNumber (d : Decimal) : Number :=
  Number.ofRatio (d.digits * Nat.pow 10 d.exponent.toNat) (Nat.pow 10 (-d.exponent).toNat)

/-- Moves up to `n` trailing zeros of the digits into the exponent. -/
def stripZeros : Nat → Decimal → Decimal
  | 0, d => d
  | n + 1, d =>
    if d.digits % 10 = 0 then stripZeros n ⟨d.digits / 10, d.exponent + 1⟩ else d

def natOfDigits (cs : List Char) : Nat :=
  cs.foldl (fun n c => 10 * n + (c.toNat - '0'.toNat)) 0

/-- A literal with the digits `whole`, a point and the digits `fraction`. -/
def ofDigits (whole fraction : List Char) : Decimal :=
  ⟨natOfDigits (whole ++ fraction), -(fraction.length : Int)⟩

end Decimal

end ClassScript
