import ClassScript.Proofs.Scoping.Shape

/-! # Renaming of local variables

A variable or parameter that is declared in a block or in a function gets a new name.  Its
declaration is renamed, and with it just those references whose recorded distance leads to the scope
of the declaration.  References of the same name that lead elsewhere stay as they are, also inside
that scope.
-/
namespace ClassScript

/-- One name is to be replaced by another; the recorded distances say where references lead. -/
structure Renaming where
  distances : Distances
  old : String
  new : String

namespace Renaming

/-- What a name becomes in a scope that is chosen or not. -/
def name (ρ : Renaming) (chosen : Bool) (name : String) : String :=
  if chosen = true ∧ name = ρ.old then ρ.new else name

/-- Whether a reference leads to a chosen scope.  There is a mark for each open scope, the innermost
first; scopes further out are not chosen. -/
def leads (ρ : Renaming) (marks : List Bool) (id : Nat) : Bool :=
  (ρ.distances[id]?.bind fun d => marks[d]?).getD false

end Renaming

def Token.rename (ρ : Renaming) (chosen : Bool) (t : Token) : Token :=
  { t with lexeme := ρ.name chosen t.lexeme }

def Reference.rename (ρ : Renaming) (marks : List Bool) (ref : Reference) : Reference :=
  { ref with name := ref.name.rename ρ (ρ.leads marks ref.id) }

mutual

def Expr.rename (ρ : Renaming) (marks : List Bool) : Expr → Expr
  | .constant c => .constant c
  | .grouping e => .grouping (e.rename ρ marks)
  | .unary operator e => .unary operator (e.rename ρ marks)
  | .binary l operator r => .binary (l.rename ρ marks) operator (r.rename ρ marks)
  | .logical l operator r => .logical (l.rename ρ marks) operator (r.rename ρ marks)
  | .variable ref => .variable (ref.rename ρ marks)
  | .assign target e => .assign (target.rename ρ marks) (e.rename ρ marks)
  | .call f paren es => .call (f.rename ρ marks) paren (Expr.renameAll ρ marks es)
  | .get e name => .get (e.rename ρ marks) name
  | .set e name v => .set (e.rename ρ marks) name (v.rename ρ marks)
  | .this ref => .this ref
  | .super ref method => .super ref method

def Expr.renameAll (ρ : Renaming) (marks : List Bool) : List Expr → List Expr
  | [] => []
  | e :: es => e.rename ρ marks :: Expr.renameAll ρ marks es

end

mutual

/-- Variables are renamed where the innermost scope is chosen.  A scope that is opened on the way is
not chosen. -/
def Stmt.rename (ρ : Renaming) (marks : List Bool) : Stmt → Stmt
  | .expression e => .expression (e.rename ρ marks)
  | .print e => .print (e.rename ρ marks)
  | .var name none => .var (name.rename ρ (marks.headD false)) none
  | .var name (some e) => .var (name.rename ρ (marks.headD false)) (some (e.rename ρ marks))
  | .block body => .block (Stmt.renameAll ρ (false :: marks) body)
  | .branch c s none => .branch (c.rename ρ marks) (s.rename ρ marks) none
  | .branch c s (some t) =>
    .branch (c.rename ρ marks) (s.rename ρ marks) (some (t.rename ρ marks))
  | .loop c s => .loop (c.rename ρ marks) (s.rename ρ marks)
  | .function d => .function (d.rename ρ marks)
  | .cls name none methods => .cls name none (FunctionDecl.renameAll ρ (false :: marks) methods)
  | .cls name (some superclass) methods =>
    .cls name (some (superclass.rename ρ marks))
      (FunctionDecl.renameAll ρ (false :: false :: marks) methods)
  | .ret keyword none => .ret keyword none
  | .ret keyword (some e) => .ret keyword (some (e.rename ρ marks))

def Stmt.renameAll (ρ : Renaming) (marks : List Bool) : List Stmt → List Stmt
  | [] => []
  | s :: ss => s.rename ρ marks :: Stmt.renameAll ρ marks ss

def FunctionDecl.rename (ρ : Renaming) (marks : List Bool) : FunctionDecl → FunctionDecl
  | .mk name parameters body => .mk name parameters (Stmt.renameAll ρ (false :: marks) body)

def FunctionDecl.renameAll (ρ : Renaming) (marks : List Bool) :
    List FunctionDecl → List FunctionDecl
  | [] => []
  | d :: ds => d.rename ρ marks :: FunctionDecl.renameAll ρ marks ds

end

/-- The statements declare a variable of the name. -/
def Stmt.DeclaresVariable (name : String) (body : List Stmt) : Prop :=
  ∃ t initial, Stmt.var t initial ∈ body ∧ t.lexeme = name

mutual

/-- One scope in the first statement declares the old name by a variable or a parameter, and the
second statement is the first with that declaration renamed. -/
inductive Stmt.Renamed (ρ : Renaming) : Stmt → Stmt → Prop where
  | here {body : List Stmt} (h : Stmt.DeclaresVariable ρ.old body) :
      Stmt.Renamed ρ (.block body) (.block (Stmt.renameAll ρ [true] body))
  | block {body body' : List Stmt} (h : Stmt.RenamedAll ρ body body') :
      Stmt.Renamed ρ (.block body) (.block body')
  | positive {c : Expr} {s s' : Stmt} {t : Option Stmt} (h : Stmt.Renamed ρ s s') :
      Stmt.Renamed ρ (.branch c s t) (.branch c s' t)
  | negative {c : Expr} {s t t' : Stmt} (h : Stmt.Renamed ρ t t') :
      Stmt.Renamed ρ (.branch c s (some t)) (.branch c s (some t'))
  | loop {c : Expr} {s s' : Stmt} (h : Stmt.Renamed ρ s s') :
      Stmt.Renamed ρ (.loop c s) (.loop c s')
  | function {d d' : FunctionDecl} (h : FunctionDecl.Renamed ρ d d') :
      Stmt.Renamed ρ (.function d) (.function d')
  | cls {name : Token} {superclass : Option Reference} {methods methods' : List FunctionDecl}
      (h : FunctionDecl.RenamedAll ρ methods methods') :
      Stmt.Renamed ρ (.cls name superclass methods) (.cls name superclass methods')

/-- One of the statements is renamed. -/
inductive Stmt.RenamedAll (ρ : Renaming) : List Stmt → List Stmt → Prop where
  | head {s s' : Stmt} {ss : List Stmt} (h : Stmt.Renamed ρ s s') :
      Stmt.RenamedAll ρ (s :: ss) (s' :: ss)
  | tail {s : Stmt} {ss ss' : List Stmt} (h : Stmt.RenamedAll ρ ss ss') :
      Stmt.RenamedAll ρ (s :: ss) (s :: ss')

/-- The parameters and the body share one scope. -/
inductive FunctionDecl.Renamed (ρ : Renaming) : FunctionDecl → FunctionDecl → Prop where
  | here {name : Token} {parameters : List Token} {body : List Stmt}
      (h : (∃ p ∈ parameters, p.lexeme = ρ.old) ∨ Stmt.DeclaresVariable ρ.old body) :
      FunctionDecl.Renamed ρ (.mk name parameters body)
        (.mk name (parameters.map (Token.rename ρ true)) (Stmt.renameAll ρ [true] body))
  | body {name : Token} {parameters : List Token} {body body' : List Stmt}
      (h : Stmt.RenamedAll ρ body body') :
      FunctionDecl.Renamed ρ (.mk name parameters body) (.mk name parameters body')

inductive FunctionDecl.RenamedAll (ρ : Renaming) :
    List FunctionDecl → List FunctionDecl → Prop where
  | head {d d' : FunctionDecl} {ds : List FunctionDecl} (h : FunctionDecl.Renamed ρ d d') :
      FunctionDecl.RenamedAll ρ (d :: ds) (d' :: ds)
  | tail {d : FunctionDecl} {ds ds' : List FunctionDecl} (h : FunctionDecl.RenamedAll ρ ds ds') :
      FunctionDecl.RenamedAll ρ (d :: ds) (d :: ds')

end

mutual

/-- No reference in the expression has the name. -/
def Expr.Lacks (name : String) : Expr → Prop
  | .constant _ | .this _ | .super _ _ => True
  | .grouping e => e.Lacks name
  | .unary _ e => e.Lacks name
  | .binary l _ r => l.Lacks name ∧ r.Lacks name
  | .logical l _ r => l.Lacks name ∧ r.Lacks name
  | .variable ref => ref.name.lexeme ≠ name
  | .assign target e => target.name.lexeme ≠ name ∧ e.Lacks name
  | .call f _ es => f.Lacks name ∧ Expr.LacksAll name es
  | .get e _ => e.Lacks name
  | .set e _ v => e.Lacks name ∧ v.Lacks name

def Expr.LacksAll (name : String) : List Expr → Prop
  | [] => True
  | e :: es => e.Lacks name ∧ Expr.LacksAll name es

end

mutual

/-- No variable, parameter, function or class and no reference has the name; it may be the name of a
property. -/
def Stmt.Lacks (name : String) : Stmt → Prop
  | .expression e => e.Lacks name
  | .print e => e.Lacks name
  | .var t none => t.lexeme ≠ name
  | .var t (some e) => t.lexeme ≠ name ∧ e.Lacks name
  | .block body => Stmt.LacksAll name body
  | .branch c s none => c.Lacks name ∧ s.Lacks name
  | .branch c s (some t) => c.Lacks name ∧ s.Lacks name ∧ t.Lacks name
  | .loop c s => c.Lacks name ∧ s.Lacks name
  | .function d => d.name.lexeme ≠ name ∧ d.Lacks name
  | .cls t none methods => t.lexeme ≠ name ∧ FunctionDecl.LacksAll name methods
  | .cls t (some superclass) methods =>
    t.lexeme ≠ name ∧ superclass.name.lexeme ≠ name ∧ FunctionDecl.LacksAll name methods
  | .ret _ none => True
  | .ret _ (some e) => e.Lacks name

def Stmt.LacksAll (name : String) : List Stmt → Prop
  | [] => True
  | s :: ss => s.Lacks name ∧ Stmt.LacksAll name ss

def FunctionDecl.Lacks (name : String) : FunctionDecl → Prop
  | .mk _ parameters body => (∀ p ∈ parameters, p.lexeme ≠ name) ∧ Stmt.LacksAll name body

def FunctionDecl.LacksAll (name : String) : List FunctionDecl → Prop
  | [] => True
  | d :: ds => d.Lacks name ∧ FunctionDecl.LacksAll name ds

end

end ClassScript
