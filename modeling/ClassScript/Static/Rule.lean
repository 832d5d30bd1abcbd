import ClassScript.Report

/-! # Static rules

What a program must not do, whatever it would do when run.
-/
namespace ClassScript

inductive StaticCause where
  /-- A local name is declared twice in one scope. -/
  | redeclared
  /-- A local variable is read while its first value is being computed. -/
  | ownInitial
  | returnOutside
  | returnFromInitializer
  | inheritsItself
  | thisOutside
  | superOutside
  /-- `super` in a class without a superclass. -/
  | superUnderived
deriving DecidableEq

def StaticCause.message : StaticCause → String
  | redeclared => "Already a variable with this name in this scope."
  | ownInitial => "Can't read local variable in its own initializer."
  | returnOutside => "Can't return from top-level code."
  | returnFromInitializer => "Can't return a value from an initializer."
  | inheritsItself => "A class can't inherit from itself."
  | thisOutside => "Can't use 'this' outside of a class."
  | superOutside => "Can't use 'super' outside of a class."
  | superUnderived => "Can't use 'super' in a class with no superclass."

/-- A broken rule and the token at which it is broken. -/
structure StaticError where
  token : Token
  cause : StaticCause
deriving DecidableEq

def StaticError.report (e : StaticError) : Report := .static e.token e.cause.message

end ClassScript
