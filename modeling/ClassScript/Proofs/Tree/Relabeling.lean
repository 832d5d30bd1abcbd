import ClassScript.Proofs.Tree.References

/-! # Relabelling trees

The lines of tokens and the identities of references are labels: they say where something stands
and which reference it is, but not what it means.  A relabelling gives a tree other labels and
leaves everything else as it is.
-/
namespace ClassScript

/-- New lines for tokens and new identities for references.  Line zero is that of words which stand
in no text. -/
structure Relabeling where
  line : Nat → Nat := fun n => n
  number : Nat → Nat := fun n => n
  line_zero : line 0 = 0 := by rfl

variable (ρ : Relabeling)

def Token.relabel (t : Token) : Token := { t with line := ρ.line t.line }

def Reference.relabel (ref : Reference) : Reference := ⟨ref.name.relabel ρ, ρ.number ref.id⟩

mutual

def Expr.relabel : Expr → Expr
  | .constant value => .constant value
  | .grouping e => .grouping e.relabel
  | .unary op e => .unary (op.relabel ρ) e.relabel
  | .binary l op r => .binary l.relabel (op.relabel ρ) r.relabel
  | .logical l op r => .logical l.relabel (op.relabel ρ) r.relabel
  | .variable ref => .variable (ref.relabel ρ)
  | .assign target e => .assign (target.relabel ρ) e.relabel
  | .call f paren es => .call f.relabel (paren.relabel ρ) (Expr.relabelAll es)
  | .get e name => .get e.relabel (name.relabel ρ)
  | .set e name v => .set e.relabel (name.relabel ρ) v.relabel
  | .this ref => .this (ref.relabel ρ)
  | .super ref method => .super (ref.relabel ρ) (method.relabel ρ)

def Expr.relabelAll : List Expr → List Expr
  | [] => []
  | e :: es => e.relabel :: Expr.relabelAll es

end

mutual

def Stmt.relabel : Stmt → Stmt
  | .expression e => .expression (e.relabel ρ)
  | .print e => .print (e.relabel ρ)
  | .var name initial => .var (name.relabel ρ) (initial.map (Expr.relabel ρ))
  | .block body => .block (Stmt.relabelAll body)
  | .branch c s none => .branch (c.relabel ρ) s.relabel none
  | .branch c s (some t) => .branch (c.relabel ρ) s.relabel (some t.relabel)
  | .loop c s => .loop (c.relabel ρ) s.relabel
  | .function d => .function d.relabel
  | .cls name superclass methods =>
    .cls (name.relabel ρ) (superclass.map (Reference.relabel ρ)) (FunctionDecl.relabelAll methods)
  | .ret keyword value => .ret (keyword.relabel ρ) (value.map (Expr.relabel ρ))

def Stmt.relabelAll : List Stmt → List Stmt
  | [] => []
  | s :: ss => s.relabel :: Stmt.relabelAll ss

def FunctionDecl.relabel : FunctionDecl → FunctionDecl
  | .mk name parameters body =>
    .mk (name.relabel ρ) (parameters.map (Token.relabel ρ)) (Stmt.relabelAll body)

def FunctionDecl.relabelAll : List FunctionDecl → List FunctionDecl
  | [] => []
  | d :: ds => d.relabel :: FunctionDecl.relabelAll ds

end

variable {ρ}

@[simp] theorem Token.relabel_kind (t : Token) : (t.relabel ρ).kind = t.kind := rfl

@[simp] theorem Token.relabel_lexeme (t : Token) : (t.relabel ρ).lexeme = t.lexeme := rfl

@[simp] theorem Token.relabel_literal (t : Token) : (t.relabel ρ).literal = t.literal := rfl

@[simp] theorem Token.relabel_line (t : Token) : (t.relabel ρ).line = ρ.line t.line := rfl

@[simp] theorem Reference.relabel_name (ref : Reference) :
    (ref.relabel ρ).name = ref.name.relabel ρ := rfl

@[simp] theorem Reference.relabel_id (ref : Reference) :
    (ref.relabel ρ).id = ρ.number ref.id := rfl

@[simp] theorem FunctionDecl.relabel_name (d : FunctionDecl) :
    (d.relabel ρ).name = d.name.relabel ρ := by
  cases d
  rfl

@[simp] theorem FunctionDecl.relabel_parameters (d : FunctionDecl) :
    (d.relabel ρ).parameters = d.parameters.map (Token.relabel ρ) := by
  cases d
  rfl

@[simp] theorem FunctionDecl.relabel_body (d : FunctionDecl) :
    (d.relabel ρ).body = Stmt.relabelAll ρ d.body := by
  cases d
  rfl

@[simp] theorem FunctionDecl.relabel_arity (d : FunctionDecl) : (d.relabel ρ).arity = d.arity := by
  simp [FunctionDecl.arity]

/-! ### Labels that stay -/

/-- The lines stay what they are. -/
def Relabeling.KeepsLines (ρ : Relabeling) : Prop := ∀ n, ρ.line n = n

theorem Token.relabel_eq_self (hline : ρ.KeepsLines) (t : Token) : t.relabel ρ = t := by
  rw [Token.relabel, hline]

theorem Token.map_relabel_eq_self (hline : ρ.KeepsLines) (ts : List Token) :
    ts.map (Token.relabel ρ) = ts := by
  have hid : Token.relabel ρ = id := funext (Token.relabel_eq_self hline)
  rw [hid, List.map_id]

theorem Reference.relabel_eq_self (hline : ρ.KeepsLines) {ref : Reference}
    (h : ρ.number ref.id = ref.id) : ref.relabel ρ = ref := by
  simp [Reference.relabel, Token.relabel_eq_self hline, h]

mutual

/-- A tree is what it was if the lines stay and the identities in it do. -/
theorem Expr.relabel_eq_self (hline : ρ.KeepsLines) (e : Expr) (h : ∀ i ∈ e.ids, ρ.number i = i) :
    e.relabel ρ = e := by
  cases e with
  | constant value => rfl
  | grouping e => rw [Expr.relabel, Expr.relabel_eq_self hline e h]
  | unary op e | get e op =>
    rw [Expr.relabel, Token.relabel_eq_self hline, Expr.relabel_eq_self hline e h]
  | binary l op r | logical l op r | set l op r =>
    rw [Expr.ids, List.forall_mem_append] at h
    rw [Expr.relabel, Token.relabel_eq_self hline, Expr.relabel_eq_self hline l h.1,
      Expr.relabel_eq_self hline r h.2]
  | «variable» ref | this ref =>
    rw [Expr.relabel, Reference.relabel_eq_self hline (h _ (by simp [Expr.ids]))]
  | super ref method =>
    rw [Expr.relabel, Token.relabel_eq_self hline,
      Reference.relabel_eq_self hline (h _ (by simp [Expr.ids]))]
  | assign target e =>
    rw [Expr.ids, List.forall_mem_append] at h
    rw [Expr.relabel, Reference.relabel_eq_self hline (h.2 _ (by simp)),
      Expr.relabel_eq_self hline e h.1]
  | call f paren es =>
    rw [Expr.ids, List.forall_mem_append] at h
    rw [Expr.relabel, Token.relabel_eq_self hline, Expr.relabel_eq_self hline f h.1,
      Expr.relabelAll_eq_self hline es h.2]

theorem Expr.relabelAll_eq_self (hline : ρ.KeepsLines) (es : List Expr)
    (h : ∀ i ∈ Expr.idsAll es, ρ.number i = i) : Expr.relabelAll ρ es = es := by
  cases es with
  | nil => rfl
  | cons e es =>
    rw [Expr.idsAll, List.forall_mem_append] at h
    rw [Expr.relabelAll, Expr.relabel_eq_self hline e h.1, Expr.relabelAll_eq_self hline es h.2]

end

theorem Expr.map_relabel_eq_self (hline : ρ.KeepsLines) (e : Option Expr)
    (h : ∀ i ∈ Expr.idsOption e, ρ.number i = i) : e.map (Expr.relabel ρ) = e := by
  cases e with
  | none => rfl
  | some e => rw [Option.map_some, Expr.relabel_eq_self hline e h]

mutual

theorem Stmt.relabel_eq_self (hline : ρ.KeepsLines) (s : Stmt) (h : ∀ i ∈ s.ids, ρ.number i = i) :
    s.relabel ρ = s := by
  cases s with
  | expression e | print e => rw [Stmt.relabel, Expr.relabel_eq_self hline e h]
  | var name e | ret name e =>
    rw [Stmt.relabel, Token.relabel_eq_self hline, Expr.map_relabel_eq_self hline e h]
  | block body => rw [Stmt.relabel, Stmt.relabelAll_eq_self hline body h]
  | branch c s negative =>
    cases negative with
    | none =>
      rw [Stmt.ids, List.forall_mem_append] at h
      rw [Stmt.relabel, Expr.relabel_eq_self hline c h.1, Stmt.relabel_eq_self hline s h.2]
    | some t =>
      rw [Stmt.ids, List.forall_mem_append, List.forall_mem_append] at h
      rw [Stmt.relabel, Expr.relabel_eq_self hline c h.1.1, Stmt.relabel_eq_self hline s h.1.2,
        Stmt.relabel_eq_self hline t h.2]
  | loop c s =>
    rw [Stmt.ids, List.forall_mem_append] at h
    rw [Stmt.relabel, Expr.relabel_eq_self hline c h.1, Stmt.relabel_eq_self hline s h.2]
  | function d => rw [Stmt.relabel, FunctionDecl.relabel_eq_self hline d h]
  | cls name superclass methods =>
    cases superclass with
    | none =>
      rw [Stmt.relabel, Token.relabel_eq_self hline,
        FunctionDecl.relabelAll_eq_self hline methods h, Option.map_none]
    | some superclass =>
      rw [Stmt.ids, List.forall_mem_cons] at h
      rw [Stmt.relabel, Token.relabel_eq_self hline,
        FunctionDecl.relabelAll_eq_self hline methods h.2, Option.map_some,
        Reference.relabel_eq_self hline h.1]

theorem Stmt.relabelAll_eq_self (hline : ρ.KeepsLines) (ss : List Stmt)
    (h : ∀ i ∈ Stmt.idsAll ss, ρ.number i = i) : Stmt.relabelAll ρ ss = ss := by
  cases ss with
  | nil => rfl
  | cons s ss =>
    rw [Stmt.idsAll, List.forall_mem_append] at h
    rw [Stmt.relabelAll, Stmt.relabel_eq_self hline s h.1, Stmt.relabelAll_eq_self hline ss h.2]

theorem FunctionDecl.relabel_eq_self (hline : ρ.KeepsLines) (d : FunctionDecl)
    (h : ∀ i ∈ d.ids, ρ.number i = i) : d.relabel ρ = d := by
  cases d with
  | mk name parameters body =>
    rw [FunctionDecl.relabel, Token.relabel_eq_self hline, Token.map_relabel_eq_self hline,
      Stmt.relabelAll_eq_self hline body h]

theorem FunctionDecl.relabelAll_eq_self (hline : ρ.KeepsLines) (ds : List FunctionDecl)
    (h : ∀ i ∈ FunctionDecl.idsAll ds, ρ.number i = i) : FunctionDecl.relabelAll ρ ds = ds := by
  cases ds with
  | nil => rfl
  | cons d ds =>
    rw [FunctionDecl.idsAll, List.forall_mem_append] at h
    rw [FunctionDecl.relabelAll, FunctionDecl.relabel_eq_self hline d h.1,
      FunctionDecl.relabelAll_eq_self hline ds h.2]

end

end ClassScript
