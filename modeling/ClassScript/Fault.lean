import ClassScript.Report

/-! # Faults

Why the evaluation of a statement stops.  A fault ends the statement, is reported, and the statement
list that holds the statement goes on with the next one.
-/
namespace ClassScript

inductive RuntimeCause where
  | operandNotNumber
  | operandsNotNumbers
  | operandsNotAddable
  | unaryOperator
  | binaryOperator
  | undefinedVariable (name : String)
  | propertyOfNonObject
  | fieldOfNonObject
  | undefinedProperty (name : String)
  | superclassNotClass
  | superUnresolved
  | superWithoutObject
  | notCallable
  | arity (expected given : Nat)
  | initializerUnbound
  /-- The clock could not be read. -/
  | clock (reason : String)
  /-- A function of an embedding host failed. -/
  | native (message : String)
deriving DecidableEq

def RuntimeCause.message : RuntimeCause → String
  | operandNotNumber => "Operand must be a number."
  | operandsNotNumbers => "Operands must be numbers."
  | operandsNotAddable => "Operands must be two numbers or start with a string."
  | unaryOperator => "Invalid unary operator."
  | binaryOperator => "Invalid binary operator."
  | undefinedVariable name => "Undefined variable '" ++ name ++ "'."
  | propertyOfNonObject => "Only instances have properties."
  | fieldOfNonObject => "Only instances have fields."
  | undefinedProperty name => "Undefined property '" ++ name ++ "'."
  | superclassNotClass => "Superclass must be a class."
  | superUnresolved => "Unresolved 'super'."
  | superWithoutObject => "'super' used without an instance."
  | notCallable => "Can only call functions and classes."
  | arity expected given =>
    "Expected " ++ toString expected ++ " arguments but got " ++ toString given ++ "."
  | initializerUnbound => "Initializer is not bound to an instance."
  | clock reason => "Clock error: " ++ reason
  | native message => message

inductive Fault where
  | runtime (line : Nat) (cause : RuntimeCause)
  /-- The sink refused what was printed. -/
  | sink (message : String)
deriving DecidableEq

namespace Fault

def ofToken (t : Token) (cause : RuntimeCause) : Fault := .runtime t.line cause

def undefined (name : Token) : Fault := ofToken name (.undefinedVariable name.lexeme)

def report : Fault → Report
  | runtime line cause => .runtime line cause.message
  | sink message => .io message

end Fault

end ClassScript
