import ClassScript.Number.Shortest

/-! # Texts of numbers

Four texts: `text` is what a program prints, `shortestText` the shortest positional decimal,
`jsonText` the one in a JSON document, and `literalText` the one shown with a token.
-/
namespace ClassScript

namespace Decimal

def zeros (n : Nat) : List Char := List.replicate n '0'

/-- Digits before and after the point, padded with zeros where the point lies outside the digits. -/
def split (d : Decimal) : List Char × List Char :=
  let ds := Nat.toDigits 10 d.digits
  let places := (-d.exponent).toNat
  if d.exponent ≥ 0 then (ds ++ zeros d.exponent.toNat, [])
  else if places < ds.length then (ds.take (ds.length - places), ds.drop (ds.length - places))
  else (['0'], zeros (places - ds.length) ++ ds)

/-- Positional, without a point when nothing follows it. -/
def positional (d : Decimal) : List Char :=
  let (whole, fraction) := d.split
  if fraction.isEmpty then whole else whole ++ '.' :: fraction

/-- The exponent of the first digit. -/
def leadExponent (d : Decimal) : Int := (Nat.toDigits 10 d.digits).length + d.exponent - 1

/-- Positional, with at least one digit after the point. -/
def fixedPoint (d : Decimal) : List Char :=
  let (whole, fraction) := d.split
  whole ++ '.' :: (if fraction.isEmpty then ['0'] else fraction)

/-- One digit, the others after a point, and a signed exponent. -/
def scientific (d : Decimal) : List Char :=
  let ds := Nat.toDigits 10 d.digits
  let e := d.leadExponent
  let mantissa := if ds.length ≤ 1 then ds else ds.take 1 ++ '.' :: ds.drop 1
  mantissa ++ 'e' :: (if e < 0 then '-' else '+') :: Nat.toDigits 10 e.natAbs

end Decimal

namespace Number

def signed (x : Number) (cs : List Char) : String :=
  String.ofList (if x.signBit then '-' :: cs else cs)

/-- The shortest decimal that reads back, never with an exponent; of two equally near ones the
larger. -/
def shortestText (x : Number) : String :=
  if x.isNaN then "NaN"
  else if x.isFinite then x.signed (x.shortest .away).positional
  else x.signed ['i', 'n', 'f']

/-- Integral values are written out exactly; zero keeps its sign. -/
def text (x : Number) : String :=
  if x.isIntegral then x.signed (Nat.toDigits 10 x.wholePart) else x.shortestText

/-- Integral values that fit a signed 64-bit integer end in `.0`, and zero has no sign. -/
def literalText (x : Number) : String :=
  if x.isIntegral && decide (x.wholePart < Nat.pow 2 63) then
    let cs := Nat.toDigits 10 x.wholePart ++ ['.', '0']
    if x.isZero then String.ofList cs else x.signed cs
  else x.shortestText

/-- Positional from `1e-5` up to `1e16`, scientific outside; of two equally near shortest decimals
the even one.  Infinities and NaN have no JSON form. -/
def jsonText (x : Number) : String :=
  if !x.isFinite then "null"
  else
    let d := x.shortest .even
    if x.isZero || decide (-5 ≤ d.leadExponent ∧ d.leadExponent < 16) then x.signed d.fixedPoint
    else x.signed d.scientific

end Number

end ClassScript
