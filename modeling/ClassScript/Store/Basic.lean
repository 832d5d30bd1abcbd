import ClassScript.Bindings
import ClassScript.Number.Text
import ClassScript.Store.Value

/-! # The store

All scopes, functions, classes and instances that evaluation has created and all functions that the
host has supplied, each kind numbered in the order of creation.  Nothing is ever removed, and the
links between scopes and between classes are fixed at creation.  A number that names nothing stands
for an empty scope, closure, class or instance; evaluation never produces one.
-/
namespace ClassScript

/-- The names of one scope and the scope around it. -/
structure Scope where
  enclosing : Option Nat := none
  names : Bindings Value := .empty
deriving Inhabited

/-- A function declaration with the scope it was evaluated in. -/
structure Closure where
  declaration : FunctionDecl
  scope : Nat
  isInitializer : Bool
deriving Inhabited

structure Class where
  name : String
  superclass : Option Nat := none
  methods : Bindings Closure := .empty
deriving Inhabited

structure Object where
  cls : Nat
  fields : Bindings Value := .empty
deriving Inhabited

structure Store where
  scopes : Array Scope := #[]
  functions : Array Closure := #[]
  natives : Array Native := #[]
  classes : Array Class := #[]
  objects : Array Object := #[]

namespace Store

def scope (s : Store) (id : Nat) : Scope := s.scopes.getD id default

def closure (s : Store) (id : Nat) : Closure := s.functions.getD id default

def native (s : Store) (id : Nat) : Native := s.natives.getD id default

def classOf (s : Store) (id : Nat) : Class := s.classes.getD id default

def object (s : Store) (id : Nat) : Object := s.objects.getD id default

/-- The number the next scope will have, and so on for the other kinds. -/
def nextScope (s : Store) : Nat := s.scopes.size

def nextFunction (s : Store) : Nat := s.functions.size

def nextNative (s : Store) : Nat := s.natives.size

def nextClass (s : Store) : Nat := s.classes.size

def nextObject (s : Store) : Nat := s.objects.size

def addScope (s : Store) (enclosing : Option Nat) : Store :=
  { s with scopes := s.scopes.push { enclosing } }

def addFunction (s : Store) (c : Closure) : Store := { s with functions := s.functions.push c }

def addNative (s : Store) (f : Native) : Store := { s with natives := s.natives.push f }

def addClass (s : Store) (c : Class) : Store := { s with classes := s.classes.push c }

def addObject (s : Store) (cls : Nat) : Store := { s with objects := s.objects.push { cls } }

/-- Binds a name in one scope, again if it is bound already. -/
def define (s : Store) (id : Nat) (name : String) (value : Value) : Store :=
  { s with
    scopes := s.scopes.modify id fun scope =>
      { scope with names := scope.names.insert name value } }

def setField (s : Store) (id : Nat) (name : String) (value : Value) : Store :=
  { s with
    objects := s.objects.modify id fun o => { o with fields := o.fields.insert name value } }

/-- The text of a value; instances are shown by the name of their class. -/
def text (s : Store) : Value → String
  | .nil => "nil"
  | .bool true => "true"
  | .bool false => "false"
  | .number x => x.text
  | .string t => t
  | .function id => "<fn " ++ (s.closure id).declaration.name.lexeme ++ ">"
  | .native _ => "<native fn>"
  | .cls id => "<cls " ++ (s.classOf id).name ++ ">"
  | .object id => (s.classOf (s.object id).cls).name ++ " instance"

end Store

end ClassScript
