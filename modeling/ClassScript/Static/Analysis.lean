import ClassScript.Bindings
import ClassScript.Program.Tree
import ClassScript.Static.Rule
import Std.Data.TreeMap

/-! # Static analysis

One walk over a program finds every broken rule and records, for each reference to a local name, how
many scopes lie between it and the scope that declares the name.  References without a record are to
global names.  The walk does not stop at an error, and it may leave records behind even if it finds
errors.
-/
namespace ClassScript

/-- The distance recorded for a reference, by identity. -/
abbrev Distances := Std.TreeMap Nat Nat

/-- What the innermost function around a statement is. -/
inductive FunctionContext where
  | outside
  | function
  | method
  | initializer
deriving DecidableEq

/-- What the innermost class around an expression is. -/
inductive ClassContext where
  | outside
  | plain
  | derived
deriving DecidableEq

/-- The state of the walk.  Scopes hold the local names declared so far, the innermost scope first;
a name is marked once it may be read. -/
structure Analysis where
  scopes : List (Bindings Bool) := []
  distances : Distances := ∅
  errors : Array StaticError := #[]

namespace Analysis

def fail (a : Analysis) (token : Token) (cause : StaticCause) : Analysis :=
  { a with errors := a.errors.push ⟨token, cause⟩ }

def failIf (a : Analysis) (broken : Bool) (token : Token) (cause : StaticCause) : Analysis :=
  if broken then a.fail token cause else a

def openScope (a : Analysis) : Analysis := { a with scopes := .empty :: a.scopes }

def closeScope (a : Analysis) : Analysis := { a with scopes := a.scopes.tail }

/-- Sets the mark of a name in the innermost scope; outside all scopes names are global and are not
tracked. -/
def mark (a : Analysis) (name : String) (readable : Bool) : Analysis :=
  match a.scopes with
  | [] => a
  | scope :: outer => { a with scopes := scope.insert name readable :: outer }

/-- What the innermost scope knows of a name. -/
def innermost? (a : Analysis) (name : String) : Option Bool :=
  a.scopes.head?.bind fun scope => scope.get? name

/-- Enters a name that may not be read yet. -/
def declare (a : Analysis) (name : Token) : Analysis :=
  if (a.innermost? name.lexeme).isSome then a.fail name .redeclared else a.mark name.lexeme false

def define (a : Analysis) (name : Token) : Analysis := a.mark name.lexeme true

/-- Enters a name that may be read at once. -/
def introduce (a : Analysis) (name : Token) : Analysis := (a.declare name).define name

/-- The number of scopes inside the innermost one that has the name. -/
def distance? (a : Analysis) (name : String) : Option Nat :=
  a.scopes.findIdx? fun scope => scope.contains name

/-- Records the distance of a reference, if its name is local. -/
def record (a : Analysis) (ref : Reference) : Analysis :=
  match a.distance? ref.name.lexeme with
  | none => a
  | some d => { a with distances := a.distances.insert ref.id d }

end Analysis

/-- How a `super` breaks the rules in a class context. -/
def ClassContext.superFault? : ClassContext → Option StaticCause
  | outside => some .superOutside
  | plain => some .superUnderived
  | derived => none

mutual

def Expr.analyze (cls : ClassContext) : Expr → Analysis → Analysis
  | .constant _, a => a
  | .grouping e, a => e.analyze cls a
  | .unary _ e, a => e.analyze cls a
  | .binary l _ r, a => r.analyze cls (l.analyze cls a)
  | .logical l _ r, a => r.analyze cls (l.analyze cls a)
  | .variable ref, a =>
    (a.failIf (a.innermost? ref.name.lexeme == some false) ref.name .ownInitial).record ref
  | .assign target e, a => (e.analyze cls a).record target
  | .call f _ es, a => Expr.analyzeAll cls es (f.analyze cls a)
  | .get e _, a => e.analyze cls a
  | .set e _ v, a => e.analyze cls (v.analyze cls a)
  | .this ref, a => if cls = .outside then a.fail ref.name .thisOutside else a.record ref
  | .super ref _, a =>
    match cls.superFault? with
    | none => a.record ref
    | some cause => (a.fail ref.name cause).record ref

def Expr.analyzeAll (cls : ClassContext) : List Expr → Analysis → Analysis
  | [], a => a
  | e :: es, a => Expr.analyzeAll cls es (e.analyze cls a)

end

def Expr.analyzeOption (cls : ClassContext) : Option Expr → Analysis → Analysis
  | none, a => a
  | some e, a => e.analyze cls a

/-- A superclass may not be the class itself; its own scope holds `super`. -/
def Analysis.enterSuperclass (a : Analysis) (name : Token) (superclass : Reference) : Analysis :=
  ((a.failIf (superclass.name.lexeme == name.lexeme) superclass.name .inheritsItself).record
    superclass).openScope.mark "super" true

mutual

def Stmt.analyze (fn : FunctionContext) (cls : ClassContext) : Stmt → Analysis → Analysis
  | .expression e, a => e.analyze cls a
  | .print e, a => e.analyze cls a
  | .var name initial, a => (Expr.analyzeOption cls initial (a.declare name)).define name
  | .block body, a => (Stmt.analyzeAll fn cls body a.openScope).closeScope
  | .branch c s none, a => s.analyze fn cls (c.analyze cls a)
  | .branch c s (some t), a => t.analyze fn cls (s.analyze fn cls (c.analyze cls a))
  | .loop c s, a => s.analyze fn cls (c.analyze cls a)
  | .function d, a => d.analyze .function cls (a.introduce d.name)
  | .cls name none methods, a =>
    (FunctionDecl.analyzeAll .plain methods
      ((a.introduce name).openScope.mark "this" true)).closeScope
  | .cls name (some superclass) methods, a =>
    (FunctionDecl.analyzeAll .derived methods
      (((a.introduce name).enterSuperclass name superclass).openScope.mark "this"
        true)).closeScope.closeScope
  | .ret keyword none, a => a.failIf (fn == .outside) keyword .returnOutside
  | .ret keyword (some e), a =>
    e.analyze cls ((a.failIf (fn == .outside) keyword .returnOutside).failIf (fn == .initializer)
      keyword .returnFromInitializer)

def Stmt.analyzeAll (fn : FunctionContext) (cls : ClassContext) : List Stmt → Analysis → Analysis
  | [], a => a
  | s :: ss, a => Stmt.analyzeAll fn cls ss (s.analyze fn cls a)

/-- The parameters and the body share one scope. -/
def FunctionDecl.analyze (fn : FunctionContext) (cls : ClassContext) :
    FunctionDecl → Analysis → Analysis
  | .mk _ parameters body, a =>
    (Stmt.analyzeAll fn cls body (parameters.foldl Analysis.introduce a.openScope)).closeScope

/-- Methods, of which the initializer is told apart by its name. -/
def FunctionDecl.analyzeAll (cls : ClassContext) : List FunctionDecl → Analysis → Analysis
  | [], a => a
  | d :: ds, a =>
    FunctionDecl.analyzeAll cls ds
      (d.analyze (if d.name.lexeme = initializerName then .initializer else .method) cls a)

end

namespace Program

/-- Analyses a program outside all scopes, on top of the distances that are known already. -/
def analyze (program : Program) (distances : Distances) : Analysis :=
  Stmt.analyzeAll .outside .outside program { distances }

end Program

end ClassScript
