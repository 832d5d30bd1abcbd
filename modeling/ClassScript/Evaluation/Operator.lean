import ClassScript.Fault
import ClassScript.Store.Value

/-! # Operators

The results of operators on values, where no method has to run.
-/
namespace ClassScript

/-- Minus and negation; any other operator is a fault. -/
def unaryResult (operator : Token) (v : Value) : Except Fault Value :=
  match operator.kind, v with
  | .minus, .number x => .ok (.number x.neg)
  | .minus, _ => .error (.ofToken operator .operandNotNumber)
  | .bang, v => .ok (.bool !v.truth)
  | _, _ => .error (.ofToken operator .unaryOperator)

/-- What an operator computes from two numbers, for the operators that take numbers only. -/
def arithmetic? : Token.Kind → Option (Number → Number → Value)
  | .minus => some fun x y => .number (x.sub y)
  | .star => some fun x y => .number (x.mul y)
  | .slash => some fun x y => .number (x.div y)
  | .less => some fun x y => .bool (x.less y)
  | .lessEqual => some fun x y => .bool (x.lessEqual y)
  | .greater => some fun x y => .bool (y.less x)
  | .greaterEqual => some fun x y => .bool (y.lessEqual x)
  | _ => none

/-- Equality, sums of numbers and arithmetic; any other operator is a fault. -/
def binaryResult (operator : Token) (left right : Value) : Except Fault Value :=
  match operator.kind with
  | .equalEqual => .ok (.bool (left.equal right))
  | .bangEqual => .ok (.bool !left.equal right)
  | .plus =>
    match left, right with
    | .number x, .number y => .ok (.number (x.add y))
    | _, _ => .error (.ofToken operator .operandsNotAddable)
  | kind =>
    match arithmetic? kind, left, right with
    | none, _, _ => .error (.ofToken operator .binaryOperator)
    | some f, .number x, .number y => .ok (f x y)
    | some _, _, _ => .error (.ofToken operator .operandsNotNumbers)

/-- `or` is decided by a true operand, every other logical operator by a false one. -/
def isDecided (operator : Token) (left : Value) : Bool :=
  if operator.kind = .orWord then left.truth else !left.truth

end ClassScript
