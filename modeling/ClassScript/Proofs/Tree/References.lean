import ClassScript.Program.Tree

/-! # The references of a tree

The identities of all references in a tree, and what it means that they were given out from one
counter: they differ, and they lie between the counter's values before and after.  Trees that are
equal but for the identities are equal when the identities are erased.
-/
namespace ClassScript

mutual

/-- The identity of an assignment stands behind those of its value. -/
def Expr.ids : Expr → List Nat
  | .constant _ => []
  | .grouping e => e.ids
  | .unary _ e => e.ids
  | .binary l _ r => l.ids ++ r.ids
  | .logical l _ r => l.ids ++ r.ids
  | .variable ref => [ref.id]
  | .assign target e => e.ids ++ [target.id]
  | .call f _ es => f.ids ++ Expr.idsAll es
  | .get e _ => e.ids
  | .set e _ v => e.ids ++ v.ids
  | .this ref => [ref.id]
  | .super ref _ => [ref.id]

def Expr.idsAll : List Expr → List Nat
  | [] => []
  | e :: es => e.ids ++ Expr.idsAll es

end

def Expr.idsOption : Option Expr → List Nat
  | none => []
  | some e => e.ids

mutual

def Stmt.ids : Stmt → List Nat
  | .expression e => e.ids
  | .print e => e.ids
  | .var _ initial => Expr.idsOption initial
  | .block body => Stmt.idsAll body
  | .branch c s none => c.ids ++ s.ids
  | .branch c s (some t) => c.ids ++ s.ids ++ t.ids
  | .loop c s => c.ids ++ s.ids
  | .function d => d.ids
  | .cls _ none methods => FunctionDecl.idsAll methods
  | .cls _ (some superclass) methods => superclass.id :: FunctionDecl.idsAll methods
  | .ret _ value => Expr.idsOption value

def Stmt.idsAll : List Stmt → List Nat
  | [] => []
  | s :: ss => s.ids ++ Stmt.idsAll ss

def FunctionDecl.ids : FunctionDecl → List Nat
  | .mk _ _ body => Stmt.idsAll body

def FunctionDecl.idsAll : List FunctionDecl → List Nat
  | [] => []
  | d :: ds => d.ids ++ FunctionDecl.idsAll ds

end

def Stmt.idsOption : Option Stmt → List Nat
  | none => []
  | some s => s.ids

@[simp] theorem Stmt.idsAll_append (ss ts : List Stmt) :
    Stmt.idsAll (ss ++ ts) = Stmt.idsAll ss ++ Stmt.idsAll ts := by
  induction ss with
  | nil => rfl
  | cons s ss ih => simp [Stmt.idsAll, ih]

/-- Different identities, given out while a counter went from `lo` to `hi`. -/
structure Numbered (lo : Nat) (ids : List Nat) (hi : Nat) : Prop where
  nodup : ids.Nodup
  bounds : ∀ i ∈ ids, lo ≤ i ∧ i < hi

namespace Numbered

variable {lo mid hi : Nat} {xs ys : List Nat}

theorem nil : Numbered lo [] hi := ⟨List.nodup_nil, by simp⟩

theorem single (n : Nat) : Numbered n [n] (n + 1) := ⟨by simp, by simp⟩

theorem mono (h : Numbered mid xs hi) {lo' hi' : Nat} (hlo : lo' ≤ mid) (hhi : hi ≤ hi') :
    Numbered lo' xs hi' :=
  ⟨h.nodup, fun i hi => by have := h.bounds i hi; omega⟩

theorem append (hx : Numbered lo xs mid) (hy : Numbered mid ys hi) (hlo : lo ≤ mid)
    (hhi : mid ≤ hi) : Numbered lo (xs ++ ys) hi where
  nodup := by
    refine List.nodup_append.2 ⟨hx.nodup, hy.nodup, fun a ha b hb => ?_⟩
    have := (hx.bounds a ha).2
    have := (hy.bounds b hb).1
    omega
  bounds := by
    intro i hi
    rcases List.mem_append.1 hi with hi | hi
    · have := hx.bounds i hi
      omega
    · have := hy.bounds i hi
      omega

theorem perm (h : Numbered lo xs hi) (hperm : xs.Perm ys) : Numbered lo ys hi :=
  ⟨hperm.nodup_iff.1 h.nodup, fun i hi => h.bounds i (hperm.mem_iff.2 hi)⟩

end Numbered

def Reference.erase (ref : Reference) : Reference := { ref with id := 0 }

mutual

/-- The expression with all identities zero. -/
def Expr.erase : Expr → Expr
  | .constant value => .constant value
  | .grouping e => .grouping e.erase
  | .unary op e => .unary op e.erase
  | .binary l op r => .binary l.erase op r.erase
  | .logical l op r => .logical l.erase op r.erase
  | .variable ref => .variable ref.erase
  | .assign target e => .assign target.erase e.erase
  | .call f paren es => .call f.erase paren (Expr.eraseAll es)
  | .get e name => .get e.erase name
  | .set e name v => .set e.erase name v.erase
  | .this ref => .this ref.erase
  | .super ref method => .super ref.erase method

def Expr.eraseAll : List Expr → List Expr
  | [] => []
  | e :: es => e.erase :: Expr.eraseAll es

end

mutual

/-- The statement with all identities zero. -/
def Stmt.erase : Stmt → Stmt
  | .expression e => .expression e.erase
  | .print e => .print e.erase
  | .var name initial => .var name (initial.map Expr.erase)
  | .block body => .block (Stmt.eraseAll body)
  | .branch c s none => .branch c.erase s.erase none
  | .branch c s (some t) => .branch c.erase s.erase (some t.erase)
  | .loop c s => .loop c.erase s.erase
  | .function d => .function d.erase
  | .cls name superclass methods =>
    .cls name (superclass.map Reference.erase) (FunctionDecl.eraseAll methods)
  | .ret keyword value => .ret keyword (value.map Expr.erase)

def Stmt.eraseAll : List Stmt → List Stmt
  | [] => []
  | s :: ss => s.erase :: Stmt.eraseAll ss

def FunctionDecl.erase : FunctionDecl → FunctionDecl
  | .mk name parameters body => .mk name parameters (Stmt.eraseAll body)

def FunctionDecl.eraseAll : List FunctionDecl → List FunctionDecl
  | [] => []
  | d :: ds => d.erase :: FunctionDecl.eraseAll ds

end

@[simp] theorem Stmt.eraseAll_append (ss ts : List Stmt) :
    Stmt.eraseAll (ss ++ ts) = Stmt.eraseAll ss ++ Stmt.eraseAll ts := by
  induction ss with
  | nil => rfl
  | cons s ss ih => simp [Stmt.eraseAll, ih]

end ClassScript
