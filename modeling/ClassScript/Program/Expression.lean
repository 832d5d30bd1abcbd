import ClassScript.Program.Reader

/-! # Reading expressions

The operators that stand between operands are arranged in tiers from the loosest to the tightest;
each tier groups to the left.  Assignment is looser than all of them and groups to the right.  What
may be assigned to is decided after the right-hand side has been read.
-/
namespace ClassScript

/-- Operators of one strength and the expression they build. -/
structure Tier where
  operators : List Token.Kind
  join : Expr → Token → Expr → Expr

/-- The tiers, loosest first. -/
def tiers : List Tier :=
  [⟨[.orWord], .logical⟩,
    ⟨[.andWord], .logical⟩,
    ⟨[.bangEqual, .equalEqual], .binary⟩,
    ⟨[.greater, .greaterEqual, .less, .lessEqual], .binary⟩,
    ⟨[.minus, .plus], .binary⟩,
    ⟨[.star, .slash], .binary⟩]

/-- The greatest number of arguments and of parameters. -/
def maxArity : Nat := 255

namespace Rules

open TokenReader

variable {m : Type → Type} [TokenReader m]

/-- What `target = value` means; a target that cannot be assigned to is recorded and kept. -/
def assignment (target : Expr) (equals : Token) (value : Expr) : m Expr :=
  match target with
  | .variable ref => do return .assign ⟨ref.name, ← freshId⟩ value
  | .get object name => pure (.set object name value)
  | other => do
    note equals .assignmentTarget
    return other

mutual

def expression : Nat → m Expr
  | 0 => exhausted
  | n + 1 => do
    let target ← tier n tiers
    match ← accept .equal with
    | none => return target
    | some equals => assignment target equals (← expression n)

/-- An expression whose operators all belong to the given tiers. -/
def tier : Nat → List Tier → m Expr
  | 0, _ => exhausted
  | n + 1, [] => unary n
  | n + 1, t :: ts => do tierRest n t ts (← tier n ts)

/-- The operators and operands of one tier after its first operand. -/
def tierRest : Nat → Tier → List Tier → Expr → m Expr
  | 0, _, _, _ => exhausted
  | n + 1, t, ts, left => do
    match ← acceptAny t.operators with
    | none => return left
    | some operator => tierRest n t ts (t.join left operator (← tier n ts))

def unary : Nat → m Expr
  | 0 => exhausted
  | n + 1 => do
    match ← acceptAny [.bang, .minus] with
    | some operator => return .unary operator (← unary n)
    | none => suffixes n (← primary n)

/-- Calls and property accesses behind an expression. -/
def suffixes : Nat → Expr → m Expr
  | 0, _ => exhausted
  | n + 1, e => do
    match ← acceptAny [.leftParen, .dot] with
    | none => return e
    | some t =>
      if t.kind = .leftParen then
        let arguments ← if ← sees .rightParen then pure [] else argumentsFrom n 0
        let paren ← expect .rightParen .argumentsEnd
        suffixes n (.call e paren arguments)
      else
        let name ← expect .identifier .propertyName
        suffixes n (.get e name)

/-- One argument or more, with `count` before them. -/
def argumentsFrom : Nat → Nat → m (List Expr)
  | 0, _ => exhausted
  | n + 1, count => do
    if maxArity ≤ count then note (← peek) .tooManyArguments
    let first ← expression n
    match ← accept .comma with
    | none => return [first]
    | some _ => return first :: (← argumentsFrom n (count + 1))

def primary : Nat → m Expr
  | 0 => exhausted
  | n + 1 => do
    let some t ← acceptAny [.falseWord, .trueWord, .nilWord, .number, .string, .identifier,
        .thisWord, .superWord, .leftParen]
      | fail (← peek) .expression
    match t.kind with
    | .falseWord => return .constant (.bool false)
    | .trueWord => return .constant (.bool true)
    | .nilWord => return .constant .nil
    | .identifier => return .variable ⟨t, ← freshId⟩
    | .thisWord => return .this ⟨t, ← freshId⟩
    | .superWord =>
      let _ ← expect .dot .superDot
      let method ← expect .identifier .superMethodName
      return .super ⟨t, ← freshId⟩ method
    | .leftParen =>
      let inner ← expression n
      let _ ← expect .rightParen .groupingEnd
      return .grouping inner
    | _ =>
      match t.literal with
      | some literal => return .constant (.ofLiteral literal)
      | none => fail t .malformedLiteral

end

end Rules

end ClassScript
