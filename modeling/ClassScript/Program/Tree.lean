import ClassScript.Token.Basic

/-! # Programs as trees

Expressions, statements and function declarations.  Every place that names a variable, `this` or
`super` is a reference with an identity of its own, so that what is known about it can be kept in a
table beside the tree.
-/
namespace ClassScript

/-- An occurrence of a name: the token, and the identity of the occurrence. -/
structure Reference where
  name : Token
  id : Nat
deriving DecidableEq

/-- A value that is written down. -/
inductive Constant where
  | nil
  | bool (value : Bool)
  | number (value : Number)
  | string (text : String)
deriving DecidableEq

def Constant.ofLiteral : Token.Literal → Constant
  | .number x => .number x
  | .string s => .string s

/-- Operators are kept as tokens: evaluation needs their kind, outlines their text, and reports
their line. -/
inductive Expr where
  | constant (value : Constant)
  | grouping (inner : Expr)
  | unary (operator : Token) (right : Expr)
  | binary (left : Expr) (operator : Token) (right : Expr)
  | logical (left : Expr) (operator : Token) (right : Expr)
  | variable (ref : Reference)
  | assign (target : Reference) (value : Expr)
  | call (callee : Expr) (paren : Token) (arguments : List Expr)
  | get (object : Expr) (name : Token)
  | set (object : Expr) (name : Token) (value : Expr)
  | this (ref : Reference)
  | super (ref : Reference) (method : Token)

mutual

inductive Stmt where
  | expression (value : Expr)
  | print (value : Expr)
  | var (name : Token) (initial : Option Expr)
  | block (body : List Stmt)
  | branch (condition : Expr) (positive : Stmt) (negative : Option Stmt)
  | loop (condition : Expr) (body : Stmt)
  | function (declaration : FunctionDecl)
  | cls (name : Token) (superclass : Option Reference) (methods : List FunctionDecl)
  | ret (keyword : Token) (value : Option Expr)

/-- A function or method: its name, its parameters and its body. -/
inductive FunctionDecl where
  | mk (name : Token) (parameters : List Token) (body : List Stmt)

end

namespace FunctionDecl

def name : FunctionDecl → Token
  | mk name _ _ => name

def parameters : FunctionDecl → List Token
  | mk _ parameters _ => parameters

def body : FunctionDecl → List Stmt
  | mk _ _ body => body

def arity (d : FunctionDecl) : Nat := d.parameters.length

instance : Inhabited FunctionDecl := ⟨mk (Token.named "" 0) [] []⟩

end FunctionDecl

/-- A method of this name runs when its class is called. -/
def initializerName : String := "init"

/-- A method of this name without parameters gives the text of an instance. -/
def textMethodName : String := "tostr"

/-- The statement list of a source text. -/
abbrev Program := List Stmt

end ClassScript
