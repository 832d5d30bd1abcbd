import ClassScript.Fault
import ClassScript.Store.Basic

/-! # Looking names up

A name is found in a scope at a known distance, or in the innermost scope of a chain that has it.
Links lead from a scope to an older one, and from a class to an older one, so a walk along them
needs no more steps than the number it starts from.
-/
namespace ClassScript.Store

/-- What a scope itself binds a name to. -/
def own? (s : Store) (id : Nat) (name : String) : Option Value := (s.scope id).names.get? name

/-- The scope a given number of links outwards. -/
def scopeAt? (s : Store) (id : Nat) : Nat → Option Nat
  | 0 => some id
  | d + 1 => (s.scope id).enclosing.bind fun outer => s.scopeAt? outer d

def valueAt? (s : Store) (id distance : Nat) (name : String) : Option Value :=
  (s.scopeAt? id distance).bind fun scope => s.own? scope name

/-- The scope at a distance, if it has the name. -/
def holderAt? (s : Store) (id distance : Nat) (name : String) : Option Nat :=
  (s.scopeAt? id distance).filter fun scope => (s.own? scope name).isSome

/-- Rebinds a name in the scope at a distance, if it is bound there. -/
def rebindAt? (s : Store) (id distance : Nat) (name : String) (value : Value) : Option Store :=
  (s.holderAt? id distance name).map fun scope => s.define scope name value

/-- The innermost scope that has the name, among the first `n` of a chain. -/
def ownerWithin? (s : Store) (name : String) : Nat → Nat → Option Nat
  | 0, _ => none
  | n + 1, id =>
    if (s.own? id name).isSome then some id
    else (s.scope id).enclosing.bind fun outer => s.ownerWithin? name n outer

/-- The innermost scope of a chain that has the name. -/
def owner? (s : Store) (id : Nat) (name : String) : Option Nat := s.ownerWithin? name (id + 1) id

def value? (s : Store) (id : Nat) (name : String) : Option Value :=
  (s.owner? id name).bind fun scope => s.own? scope name

/-- Rebinds a name in the innermost scope of a chain that has it. -/
def rebind? (s : Store) (id : Nat) (name : String) (value : Value) : Option Store :=
  (s.owner? id name).map fun scope => s.define scope name value

/-- A failed look-up is a fault on the line of the name. -/
def orUndefined {α : Type} (name : Token) : Option α → Except Fault α
  | some a => .ok a
  | none => .error (.undefined name)

def value (s : Store) (id : Nat) (name : Token) : Except Fault Value :=
  orUndefined name (s.value? id name.lexeme)

def rebind (s : Store) (id : Nat) (name : Token) (value : Value) : Except Fault Store :=
  orUndefined name (s.rebind? id name.lexeme value)

def valueAt (s : Store) (id distance : Nat) (name : Token) : Except Fault Value :=
  orUndefined name (s.valueAt? id distance name.lexeme)

def rebindAt (s : Store) (id distance : Nat) (name : Token) (value : Value) : Except Fault Store :=
  orUndefined name (s.rebindAt? id distance name.lexeme value)

/-- The nearest method of a name, among the first `n` classes of a chain. -/
def methodWithin? (s : Store) (name : String) : Nat → Nat → Option Closure
  | 0, _ => none
  | n + 1, id =>
    match (s.classOf id).methods.get? name with
    | some c => some c
    | none => (s.classOf id).superclass.bind fun superclass => s.methodWithin? name n superclass

/-- The method of a name that a class has or inherits. -/
def method? (s : Store) (cls : Nat) (name : String) : Option Closure :=
  s.methodWithin? name (cls + 1) cls

/-- A class takes the arguments of its initializer. -/
def classArity (s : Store) (cls : Nat) : Nat :=
  ((s.method? cls initializerName).map fun c => c.declaration.arity).getD 0

/-- The method that gives the text of an instance, if it has no parameters. -/
def textMethod? (s : Store) (id : Nat) : Option Closure :=
  (s.method? (s.object id).cls textMethodName).filter fun c => c.declaration.arity = 0

end ClassScript.Store
