/-! # UTF-8

Bytes are decoded one at a time.  The first fault ends the decoding: either a sequence that no
continuation can complete, or the end of the input inside a sequence.
-/
namespace ClassScript.Text

/-- Where decoding stopped: the number of well-formed bytes before it, and the number of bytes of
the ill-formed sequence, which is absent when the input ended too early. -/
structure Utf8Fault where
  index : Nat
  length : Option Nat
deriving DecidableEq

def Utf8Fault.message (fault : Utf8Fault) : String :=
  match fault.length with
  | some n =>
    "invalid utf-8 sequence of " ++ toString n ++ " bytes from index " ++ toString fault.index
  | none => "incomplete utf-8 byte sequence from index " ++ toString fault.index

namespace Utf8

/-- A sequence of which some bytes have been read.  The bounds on the next byte exclude overlong
forms, surrogates and values above the last code point. -/
structure Open where
  value : Nat
  seen : Nat
  missing : Nat
  low : UInt8 := 0x80
  high : UInt8 := 0xBF

/-- The sequence opened by a byte that is not ASCII, if it can open one. -/
def Open.ofLead? (b : UInt8) : Option Open :=
  if 0xC2 ≤ b && b ≤ 0xDF then some { value := b.toNat - 0xC0, seen := 1, missing := 1 }
  else if b == 0xE0 then some { value := 0, seen := 1, missing := 2, low := 0xA0 }
  else if b == 0xED then some { value := 0xD, seen := 1, missing := 2, high := 0x9F }
  else if 0xE1 ≤ b && b ≤ 0xEF then some { value := b.toNat - 0xE0, seen := 1, missing := 2 }
  else if b == 0xF0 then some { value := 0, seen := 1, missing := 3, low := 0x90 }
  else if 0xF1 ≤ b && b ≤ 0xF3 then some { value := b.toNat - 0xF0, seen := 1, missing := 3 }
  else if b == 0xF4 then some { value := 4, seen := 1, missing := 3, high := 0x8F }
  else none

/-- Reads on with `index` well-formed bytes before the current sequence and the characters `done`,
the last one first. -/
def decodeFrom (index : Nat) (done : List Char) : Option Open → List UInt8 →
    Except Utf8Fault (List Char)
  | none, [] => .ok done.reverse
  | some _, [] => .error ⟨index, none⟩
  | none, b :: bs =>
    if b < 0x80 then decodeFrom (index + 1) (Char.ofNat b.toNat :: done) none bs
    else
      match Open.ofLead? b with
      | none => .error ⟨index, some 1⟩
      | some o => decodeFrom index done (some o) bs
  | some o, b :: bs =>
    if o.low ≤ b && b ≤ o.high then
      let value := o.value * 64 + (b.toNat - 0x80)
      if o.missing ≤ 1 then
        decodeFrom (index + o.seen + 1) (Char.ofNat value :: done) none bs
      else
        decodeFrom index done (some { value, seen := o.seen + 1, missing := o.missing - 1 }) bs
    else .error ⟨index, some o.seen⟩

def decode (bytes : List UInt8) : Except Utf8Fault String :=
  (decodeFrom 0 [] none bytes).map String.ofList

end Utf8

end ClassScript.Text
