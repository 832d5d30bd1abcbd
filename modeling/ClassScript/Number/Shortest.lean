import ClassScript.Number.Decimal

/-! # Shortest decimals

The decimal with the fewest digits that reads back as a given number.  For one digit, two digits and
so on, the two neighbours of the exact value on that decimal grid are read back; the first grid with
a hit wins, and of two hits the nearer.
-/
namespace ClassScript

/-- Which neighbour is taken when both read back and are equally near. -/
inductive Tie where
  | away
  | even
deriving DecidableEq

namespace Number

def digitCount (n : Nat) : Nat := (Nat.toDigits 10 n).length

/-- The exponent `k` with `10 ^ (k - 1) ≤ num / den < 10 ^ k`. -/
def decade (num den : Nat) : Int :=
  if den ≤ num then digitCount (num / den) else 1 - (digitCount ((den - 1) / num) : Int)

/-- Of the two neighbours of a positive number with `n` digits, the nearer that reads back as it. -/
def neighbour? (tie : Tie) (x : Number) (n : Nat) : Option Decimal :=
  let e := decade x.numerator x.denominator - n
  let a := x.numerator * Nat.pow 10 (-e).toNat
  let b := x.denominator * Nat.pow 10 e.toNat
  let q := a / b
  let r := a % b
  let below := Decimal.stripZeros n ⟨q, e⟩
  let above := Decimal.stripZeros (n + 1) ⟨q + 1, e⟩
  let preferBelow := decide (2 * r < b) || decide (2 * r = b) && tie == .even && q % 2 == 0
  let first := if preferBelow then below else above
  let second := if preferBelow then above else below
  if first.toNumber = x then some first else if second.toNumber = x then some second else none

/-- The exact value of a finite number: a power of two divides some power of ten. -/
def exactDecimal (x : Number) : Decimal :=
  let p := (-x.power).toNat
  ⟨x.numerator * Nat.pow 5 p, -(p : Int)⟩

/-- The shortest decimal of a finite number without its sign. -/
def shortest (tie : Tie) (x : Number) : Decimal :=
  if x.isZero then ⟨0, 0⟩
  else ((List.range 17).findSome? fun i => neighbour? tie x.abs (i + 1)).getD x.abs.exactDecimal

end Number

end ClassScript
