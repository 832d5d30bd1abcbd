import ClassScript.Number.Basic
import ClassScript.Program.Tree

/-! # Values

What an expression evaluates to.  Functions, classes and instances are named by the order of their
creation, so that the same name means the same object.  Two functions of the host are the same only
if they were supplied together.
-/
namespace ClassScript

inductive Value where
  | nil
  | bool (value : Bool)
  | number (value : Number)
  | string (text : String)
  | function (id : Nat)
  | native (id : Nat)
  | cls (id : Nat)
  | object (id : Nat)
deriving DecidableEq, Inhabited

namespace Value

def ofConstant : Constant → Value
  | .nil => nil
  | .bool b => bool b
  | .number x => number x
  | .string s => string s

/-- False are nil, false and the two zeros; everything else is true. -/
def truth : Value → Bool
  | nil => false
  | bool b => b
  | number x => !x.isZero
  | string _ | function _ | native _ | cls _ | object _ => true

/-- Numbers are equal as numbers, everything else if it is the same. -/
def equal : Value → Value → Bool
  | number x, number y => x.equal y
  | v, w => decide (v = w)

end Value

/-- Functions of the host: the clock that every session has, and those of an embedding host, which
are given each argument with its text and answer with a value or with the message of a failure. -/
inductive Native where
  | clock
  | guest (arity : Nat) (answer : List (Value × String) → Except String Value)
deriving Inhabited

def Native.arity : Native → Nat
  | clock => 0
  | guest arity _ => arity

end ClassScript
