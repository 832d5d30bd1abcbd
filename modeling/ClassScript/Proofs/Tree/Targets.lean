import ClassScript.Proofs.Scoping.Shape

/-! # What code may change

The targets of all assignments in a tree, and the names that a statement may declare in the scope in
which it is executed.  Code inside of functions and blocks declares names in scopes of its own, so
only branches and the bodies of loops count with the statement around them.
-/
namespace ClassScript

mutual

def Expr.targets : Expr → List Reference
  | .constant _ => []
  | .grouping e => e.targets
  | .unary _ e => e.targets
  | .binary l _ r => l.targets ++ r.targets
  | .logical l _ r => l.targets ++ r.targets
  | .variable _ => []
  | .assign target e => target :: e.targets
  | .call f _ es => f.targets ++ Expr.targetsAll es
  | .get e _ => e.targets
  | .set e _ v => e.targets ++ v.targets
  | .this _ => []
  | .super _ _ => []

def Expr.targetsAll : List Expr → List Reference
  | [] => []
  | e :: es => e.targets ++ Expr.targetsAll es

end

def Expr.targetsOption : Option Expr → List Reference
  | none => []
  | some e => e.targets

mutual

def Stmt.targets : Stmt → List Reference
  | .expression e => e.targets
  | .print e => e.targets
  | .var _ initial => Expr.targetsOption initial
  | .block body => Stmt.targetsAll body
  | .branch c s none => c.targets ++ s.targets
  | .branch c s (some t) => c.targets ++ s.targets ++ t.targets
  | .loop c s => c.targets ++ s.targets
  | .function d => d.targets
  | .cls _ _ methods => FunctionDecl.targetsAll methods
  | .ret _ value => Expr.targetsOption value

def Stmt.targetsAll : List Stmt → List Reference
  | [] => []
  | s :: ss => s.targets ++ Stmt.targetsAll ss

def FunctionDecl.targets : FunctionDecl → List Reference
  | .mk _ _ body => Stmt.targetsAll body

def FunctionDecl.targetsAll : List FunctionDecl → List Reference
  | [] => []
  | d :: ds => d.targets ++ FunctionDecl.targetsAll ds

end

theorem Stmt.targets_subset {s : Stmt} {ss : List Stmt} (h : s ∈ ss) :
    s.targets ⊆ Stmt.targetsAll ss := by
  induction ss with
  | nil => cases h
  | cons s' ss ih =>
    rw [Stmt.targetsAll]
    rcases List.mem_cons.1 h with rfl | h
    · exact List.subset_append_left _ _
    · exact List.subset_append_of_subset_right _ (ih h)

theorem FunctionDecl.targets_subset {d : FunctionDecl} {ds : List FunctionDecl} (h : d ∈ ds) :
    d.targets ⊆ FunctionDecl.targetsAll ds := by
  induction ds with
  | nil => cases h
  | cons d' ds ih =>
    rw [FunctionDecl.targetsAll]
    rcases List.mem_cons.1 h with rfl | h
    · exact List.subset_append_left _ _
    · exact List.subset_append_of_subset_right _ (ih h)

/-- The names that a statement may declare where it stands. -/
def Stmt.declares : Stmt → List Token
  | .var name _ => [name]
  | .function d => [d.name]
  | .cls name _ _ => [name]
  | .branch _ s none => s.declares
  | .branch _ s (some t) => s.declares ++ t.declares
  | .loop _ s => s.declares
  | .expression _ | .print _ | .block _ | .ret _ _ => []

/-- Where branches and bodies of loops are no declarations, a statement declares what it says. -/
theorem Stmt.Shaped.declares {s : Stmt} (h : s.Shaped) : s.declares = s.declared?.toList := by
  match s with
  | .expression _ | .print _ | .block _ | .ret _ _ | .var _ _ | .function _ | .cls _ _ _ =>
    simp [Stmt.declares, Stmt.declared?]
  | .branch _ s none =>
    obtain ⟨-, hs, hnone⟩ := h
    rw [Stmt.declares, hs.declares, hnone]
    rfl
  | .branch _ s (some t) =>
    obtain ⟨-, ⟨hs, hnone⟩, ht, hnone'⟩ := h
    rw [Stmt.declares, hs.declares, ht.declares, hnone, hnone']
    rfl
  | .loop _ s =>
    obtain ⟨-, hs, hnone⟩ := h
    rw [Stmt.declares, hs.declares, hnone]
    rfl

end ClassScript
