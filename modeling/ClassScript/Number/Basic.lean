/-! # Numbers

A number is a binary64 word.  Its sign, exponent and fraction fields are read off the word in exact
arithmetic; only the four operations and the order use the machine's floating point unit.
-/
namespace ClassScript

/-- A double-precision number, given by its 64-bit word.  Equality of this type is equality of
words; `Number.equal` is the equality of the language. -/
structure Number where
  bits : UInt64
deriving DecidableEq, Inhabited

namespace Number

def toFloat (x : Number) : Float := Float.ofBits x.bits

def ofFloat (f : Float) : Number := ⟨f.toBits⟩

/-- The word of positive infinity: all exponent bits set and no fraction. -/
def infinityWord : Nat := 2047 * Nat.pow 2 52

def signBit (x : Number) : Bool := decide (Nat.pow 2 63 ≤ x.bits.toNat)

def exponentField (x : Number) : Nat := x.bits.toNat / Nat.pow 2 52 % Nat.pow 2 11

def fractionField (x : Number) : Nat := x.bits.toNat % Nat.pow 2 52

def isFinite (x : Number) : Bool := decide (x.exponentField ≠ 2047)

def isNaN (x : Number) : Bool := decide (x.exponentField = 2047 ∧ x.fractionField ≠ 0)

/-- Both zeros. -/
def isZero (x : Number) : Bool := decide (x.exponentField = 0 ∧ x.fractionField = 0)

/-- A finite number has the magnitude `significand * 2 ^ power`. -/
def significand (x : Number) : Nat :=
  if x.exponentField = 0 then x.fractionField else Nat.pow 2 52 + x.fractionField

def power (x : Number) : Int := (max x.exponentField 1 : Nat) - 1075

/-- The magnitude of a finite number is `numerator / denominator`, exactly. -/
def numerator (x : Number) : Nat := x.significand * Nat.pow 2 x.power.toNat

def denominator (x : Number) : Nat := Nat.pow 2 (-x.power).toNat

/-- Finite and without a fractional part. -/
def isIntegral (x : Number) : Bool := x.isFinite && decide (x.numerator % x.denominator = 0)

/-- The magnitude rounded towards zero. -/
def wholePart (x : Number) : Nat := x.numerator / x.denominator

/-- The same number with the sign bit clear. -/
def abs (x : Number) : Number := ⟨UInt64.ofNat (x.bits.toNat % Nat.pow 2 63)⟩

def neg (x : Number) : Number := ⟨x.bits ^^^ UInt64.ofNat (Nat.pow 2 63)⟩

def add (x y : Number) : Number := ofFloat (x.toFloat + y.toFloat)

def sub (x y : Number) : Number := ofFloat (x.toFloat - y.toFloat)

def mul (x y : Number) : Number := ofFloat (x.toFloat * y.toFloat)

def div (x y : Number) : Number := ofFloat (x.toFloat / y.toFloat)

def less (x y : Number) : Bool := decide (x.toFloat < y.toFloat)

def lessEqual (x y : Number) : Bool := decide (x.toFloat ≤ y.toFloat)

/-- Words are compared, except that the two zeros are equal and a NaN equals nothing. -/
def equal (x y : Number) : Bool :=
  !x.isNaN && !y.isNaN && (decide (x = y) || x.isZero && y.isZero)

end Number

end ClassScript
