import ClassScript.Proofs.Outline.Trees
import Mathlib.Data.List.Forall2

/-! # The outline determines the tree

Two programs that were read from source texts with finite numbers agree in everything but lines and
identities if they have the same outline, numbers being compared by their texts.  The outline is the
text of a form, the form is read off the text in one way, and the tree is read off the form.
-/
namespace ClassScript

/-- The same token, on whatever line. -/
structure Token.Agrees (t t' : Token) : Prop where
  kind : t.kind = t'.kind
  lexeme : t.lexeme = t'.lexeme
  literal : t.literal = t'.literal

def Constant.Agrees : Constant → Constant → Prop
  | .number x, .number y => x.text = y.text
  | c, c' => c = c'

mutual

/-- The same tree, whatever the lines of tokens and the identities of references. -/
def Expr.Agrees : Expr → Expr → Prop
  | .constant c, .constant c' => c.Agrees c'
  | .grouping e, .grouping e' => e.Agrees e'
  | .unary op e, .unary op' e' => op.Agrees op' ∧ e.Agrees e'
  | .binary l op r, .binary l' op' r' => l.Agrees l' ∧ op.Agrees op' ∧ r.Agrees r'
  | .logical l op r, .logical l' op' r' => l.Agrees l' ∧ op.Agrees op' ∧ r.Agrees r'
  | .variable x, .variable x' => x.name.Agrees x'.name
  | .assign x e, .assign x' e' => x.name.Agrees x'.name ∧ e.Agrees e'
  | .call f paren es, .call f' paren' es' =>
    f.Agrees f' ∧ paren.Agrees paren' ∧ Expr.AgreesAll es es'
  | .get e name, .get e' name' => e.Agrees e' ∧ name.Agrees name'
  | .set e name v, .set e' name' v' => e.Agrees e' ∧ name.Agrees name' ∧ v.Agrees v'
  | .this x, .this x' => x.name.Agrees x'.name
  | .super x method, .super x' method' => x.name.Agrees x'.name ∧ method.Agrees method'
  | _, _ => False

def Expr.AgreesAll : List Expr → List Expr → Prop
  | [], [] => True
  | e :: es, e' :: es' => e.Agrees e' ∧ Expr.AgreesAll es es'
  | _, _ => False

end

mutual

def Stmt.Agrees : Stmt → Stmt → Prop
  | .expression e, .expression e' => e.Agrees e'
  | .print e, .print e' => e.Agrees e'
  | .var name none, .var name' none => name.Agrees name'
  | .var name (some e), .var name' (some e') => name.Agrees name' ∧ e.Agrees e'
  | .block body, .block body' => Stmt.AgreesAll body body'
  | .branch c s none, .branch c' s' none => c.Agrees c' ∧ s.Agrees s'
  | .branch c s (some t), .branch c' s' (some t') => c.Agrees c' ∧ s.Agrees s' ∧ t.Agrees t'
  | .loop c s, .loop c' s' => c.Agrees c' ∧ s.Agrees s'
  | .function d, .function d' => d.Agrees d'
  | .cls name none methods, .cls name' none methods' =>
    name.Agrees name' ∧ FunctionDecl.AgreesAll methods methods'
  | .cls name (some x) methods, .cls name' (some x') methods' =>
    name.Agrees name' ∧ x.name.Agrees x'.name ∧ FunctionDecl.AgreesAll methods methods'
  | .ret keyword none, .ret keyword' none => keyword.Agrees keyword'
  | .ret keyword (some e), .ret keyword' (some e') => keyword.Agrees keyword' ∧ e.Agrees e'
  | _, _ => False
termination_by structural s => s

def Stmt.AgreesAll : List Stmt → List Stmt → Prop
  | [], [] => True
  | s :: ss, s' :: ss' => s.Agrees s' ∧ Stmt.AgreesAll ss ss'
  | _, _ => False
termination_by structural ss => ss

def FunctionDecl.Agrees : FunctionDecl → FunctionDecl → Prop
  | .mk name parameters body, .mk name' parameters' body' =>
    name.Agrees name' ∧ List.Forall₂ Token.Agrees parameters parameters' ∧
      Stmt.AgreesAll body body'
termination_by structural d => d

def FunctionDecl.AgreesAll : List FunctionDecl → List FunctionDecl → Prop
  | [], [] => True
  | d :: ds, d' :: ds' => d.Agrees d' ∧ FunctionDecl.AgreesAll ds ds'
  | _, _ => False
termination_by structural ds => ds

end

namespace Token

theorem spelling_unique :
    ∀ p ∈ spellings, ∀ q ∈ spellings, p.1 = q.1 ∨ p.2 = q.2 → p = q := by
  decide +kernel

/-- Two tokens agree if their texts or their kinds are the same. -/
theorem Stands.agrees {kinds kinds' : List Kind} {t t' : Token} (h : t.Stands kinds)
    (h' : t'.Stands kinds') (hkinds : ∀ kind ∈ kinds, IsFixed kind)
    (hkinds' : ∀ kind ∈ kinds', IsFixed kind) (heq : t.lexeme = t'.lexeme ∨ t.kind = t'.kind) :
    t.Agrees t' := by
  obtain ⟨hmem, hliteral⟩ := h.fixed hkinds
  obtain ⟨hmem', hliteral'⟩ := h'.fixed hkinds'
  have hspelling := spelling_unique _ hmem _ hmem' heq
  exact ⟨congrArg Prod.snd hspelling, congrArg Prod.fst hspelling, by rw [hliteral, hliteral']⟩

/-- The only token of its kind. -/
theorem Stands.agrees_single {kind : Kind} {t t' : Token} (h : t.Stands [kind])
    (h' : t'.Stands [kind]) (hkind : IsFixed kind) : t.Agrees t' := by
  have hkinds : ∀ k ∈ [kind], IsFixed k := by simpa using hkind
  refine h.agrees h' hkinds hkinds (.inr ?_)
  rw [List.mem_singleton.1 h.mem, List.mem_singleton.1 h'.mem]

theorem Stands.agrees_name {t t' : Token} (h : t.Stands [.identifier])
    (h' : t'.Stands [.identifier]) (heq : t.lexeme = t'.lexeme) : t.Agrees t' :=
  ⟨h.name.1.trans h'.name.1.symm, heq, h.name.2.2.trans h'.name.2.2.symm⟩

end Token

/-! ## Trees are read off their forms -/

namespace Expr

/-- The constructors of expressions. -/
inductive Operation where
  | constant
  | grouping
  | unary
  | binary
  | logical
  | variable
  | assign
  | call
  | get
  | set
  | this
  | super
deriving DecidableEq

def operation : Expr → Operation
  | .constant _ => .constant
  | .grouping _ => .grouping
  | .unary .. => .unary
  | .binary .. => .binary
  | .logical .. => .logical
  | .variable _ => .variable
  | .assign .. => .assign
  | .call .. => .call
  | .get .. => .get
  | .set .. => .set
  | .this _ => .this
  | .super .. => .super

end Expr

namespace Form

/-- The words that show the constructor of an expression. -/
def tags : List (String × Expr.Operation) :=
  [("group", .grouping), ("=", .assign), ("call", .call), (".", .get), (".=", .set),
    ("super", .super), ("and", .logical), ("or", .logical)]

/-- The constructor of the expression that has the form.  Unary and binary operators differ in the
number of operands, and names differ from constants in their first character. -/
def operation : Form → Expr.Operation
  | word text =>
    if text = "this" then .this
    else if Token.Kind.ofWord text ≠ .identifier ∨ text.toList.head?.any Char.isDigit = true then
      .constant
    else .variable
  | quoted _ | signature _ _ => .constant
  | list head items =>
    (tags.lookup head).getD (if items.length = 1 then .unary else .binary)

end Form

theorem Number.IsNumeral.head {text : String} (h : Number.IsNumeral text) :
    text.toList.head?.any Char.isDigit = true := by
  obtain ⟨c, cs, htext, hc, -⟩ := h
  simp [htext, hc]

theorem Token.IsName.head {text : String} (h : Token.IsName text) :
    text.toList.head?.any Char.isDigit = false := by
  obtain ⟨c, cs, htext, hc, -⟩ := h.chars
  have hdigit : c.isDigit = false := by
    simp only [Source.isWordStart, Bool.or_eq_true, decide_eq_true_eq, beq_iff_eq] at hc
    simp only [Char.isDigit, Bool.and_eq_false_imp, decide_eq_true_eq, decide_eq_false_iff_not]
    intro _
    rcases hc with (⟨hletter, -⟩ | ⟨hletter, -⟩) | rfl
    · exact fun hnine => absurd (Char.le_trans hletter hnine) (by decide)
    · exact fun hnine => absurd (Char.le_trans hletter hnine) (by decide)
    · decide
  simp [htext, hdigit]

theorem Constant.Written.operation {c : Constant} (h : c.Written) :
    c.form.operation = .constant := by
  cases c with
  | nil => decide
  | bool value => cases value <;> decide
  | number x =>
    have hhead := h.head
    have hthis : x.text ≠ "this" := by
      intro heq
      rw [heq] at hhead
      exact absurd hhead (by decide)
    simp [Constant.form, Form.operation, hthis, hhead]
  | string s => rfl

theorem Token.Stands.operation {t : Token} (h : t.Stands [.identifier]) :
    (Form.word t.lexeme).operation = .variable := by
  obtain ⟨-, hname, -⟩ := h.name
  have hthis : t.lexeme ≠ "this" := by
    intro heq
    have hfree := hname.free
    rw [heq] at hfree
    exact absurd hfree (by decide)
  simp [Form.operation, hthis, hname.free, hname.head]

theorem Expr.lookup_operator {kinds : List Token.Kind} {t : Token} (h : t.Stands kinds)
    {operation : Option Expr.Operation} (hkinds : ∀ kind ∈ kinds, Token.IsFixed kind)
    (hoperation : ∀ p ∈ Token.spellings, p.2 ∈ kinds → Form.tags.lookup p.1 = operation) :
    Form.tags.lookup t.lexeme = operation :=
  hoperation _ (h.fixed hkinds).1 h.mem

theorem Expr.Written.operation {e : Expr} (h : e.Written) : e.form.operation = e.operation := by
  cases e with
  | constant c => exact Constant.Written.operation h
  | «variable» x => exact Token.Stands.operation h
  | this x => rfl
  | unary op e =>
    have hlookup : Form.tags.lookup op.lexeme = none :=
      lookup_operator h.1 (by decide) (by decide +kernel)
    simp [Expr.form, Form.operation, hlookup, Expr.operation]
  | binary l op r =>
    have hlookup : Form.tags.lookup op.lexeme = none :=
      lookup_operator h.1 (by decide) (by decide +kernel)
    simp [Expr.form, Form.operation, hlookup, Expr.operation]
  | logical l op r =>
    have hlookup : Form.tags.lookup op.lexeme = some .logical :=
      lookup_operator h.1 (by decide) (by decide +kernel)
    simp [Expr.form, Form.operation, hlookup, Expr.operation]
  | grouping _ | assign _ _ | call _ _ _ | get _ _ | set _ _ _ | super _ _ => rfl

theorem Constant.agrees_of_form {c c' : Constant} (hc : c.Written) (hc' : c'.Written)
    (h : c.form = c'.form) : c.Agrees c' := by
  have hnumeral {x : Number} (hx : Number.IsNumeral x.text) :
      x.text ≠ "nil" ∧ x.text ≠ "true" ∧ x.text ≠ "false" := by
    have hhead := hx.head
    refine ⟨?_, ?_, ?_⟩ <;> intro heq <;> rw [heq] at hhead <;> exact absurd hhead (by decide)
  cases c with
  | nil =>
    cases c' with
    | nil => rfl
    | bool value => cases value <;> simp [Constant.form] at h
    | number x => exact absurd (Form.word.inj h).symm (hnumeral hc').1
    | string s => cases h
  | bool value =>
    cases c' with
    | nil => cases value <;> simp [Constant.form] at h
    | bool value' => cases value <;> cases value' <;> simp [Constant.form] at h <;> rfl
    | number x =>
      cases value with
      | false => exact absurd (Form.word.inj h).symm (hnumeral hc').2.2
      | true => exact absurd (Form.word.inj h).symm (hnumeral hc').2.1
    | string s => cases value <;> cases h
  | number x =>
    cases c' with
    | nil => exact absurd (Form.word.inj h) (hnumeral hc).1
    | bool value =>
      cases value with
      | false => exact absurd (Form.word.inj h) (hnumeral hc).2.2
      | true => exact absurd (Form.word.inj h) (hnumeral hc).2.1
    | number y => exact Form.word.inj h
    | string s => cases h
  | string s =>
    cases c' with
    | nil | number x => cases h
    | bool value => cases value <;> cases h
    | string s' => exact congrArg Constant.string (Form.quoted.inj h)

mutual

theorem Expr.agrees_of_form {e e' : Expr} (he : e.Written) (he' : e'.Written)
    (h : e.form = e'.form) : e.Agrees e' := by
  have hoperation : e.operation = e'.operation := by rw [← he.operation, ← he'.operation, h]
  cases e with
  | constant c =>
    cases e' with
    | constant c' => exact Constant.agrees_of_form he he' h
    | _ => cases hoperation
  | grouping e =>
    cases e' with
    | grouping e' =>
      simp only [Expr.form, Form.list.injEq, List.cons.injEq, and_true, true_and] at h
      exact @Expr.agrees_of_form e e' he he' h
    | _ => cases hoperation
  | unary op e =>
    cases e' with
    | unary op' e' =>
      simp only [Expr.form, Form.list.injEq, List.cons.injEq, and_true] at h
      exact ⟨he.1.agrees he'.1 (by decide) (by decide) (.inl h.1),
        Expr.agrees_of_form he.2 he'.2 h.2⟩
    | _ => cases hoperation
  | binary l op r =>
    cases e' with
    | binary l' op' r' =>
      simp only [Expr.form, Form.list.injEq, List.cons.injEq, and_true] at h
      exact ⟨Expr.agrees_of_form he.2.1 he'.2.1 h.2.1,
        he.1.agrees he'.1 (by decide) (by decide) (.inl h.1),
        Expr.agrees_of_form he.2.2 he'.2.2 h.2.2⟩
    | _ => cases hoperation
  | logical l op r =>
    cases e' with
    | logical l' op' r' =>
      simp only [Expr.form, Form.list.injEq, List.cons.injEq, and_true] at h
      exact ⟨Expr.agrees_of_form he.2.1 he'.2.1 h.2.1,
        he.1.agrees he'.1 (by decide) (by decide) (.inl h.1),
        Expr.agrees_of_form he.2.2 he'.2.2 h.2.2⟩
    | _ => cases hoperation
  | «variable» x =>
    cases e' with
    | «variable» x' => exact Token.Stands.agrees_name he he' (Form.word.inj h)
    | _ => cases hoperation
  | assign x e =>
    cases e' with
    | assign x' e' =>
      simp only [Expr.form, Form.list.injEq, Form.word.injEq, List.cons.injEq, and_true,
        true_and] at h
      exact ⟨he.1.agrees_name he'.1 h.1, Expr.agrees_of_form he.2 he'.2 h.2⟩
    | _ => cases hoperation
  | call f paren es =>
    cases e' with
    | call f' paren' es' =>
      simp only [Expr.form, Form.list.injEq, List.cons.injEq, true_and] at h
      exact ⟨Expr.agrees_of_form he.1 he'.1 h.1, he.2.1.agrees_single he'.2.1 (by decide),
        Expr.agreesAll_of_form he.2.2 he'.2.2 h.2⟩
    | _ => cases hoperation
  | get e name =>
    cases e' with
    | get e' name' =>
      simp only [Expr.form, Form.list.injEq, Form.word.injEq, List.cons.injEq, and_true,
        true_and] at h
      exact ⟨Expr.agrees_of_form he.1 he'.1 h.1, he.2.agrees_name he'.2 h.2⟩
    | _ => cases hoperation
  | set e name v =>
    cases e' with
    | set e' name' v' =>
      simp only [Expr.form, Form.list.injEq, Form.word.injEq, List.cons.injEq, and_true,
        true_and] at h
      exact ⟨Expr.agrees_of_form he.1 he'.1 h.1, he.2.1.agrees_name he'.2.1 h.2.1,
        Expr.agrees_of_form he.2.2 he'.2.2 h.2.2⟩
    | _ => cases hoperation
  | this x =>
    cases e' with
    | this x' => exact Token.Stands.agrees_single he he' (by decide)
    | _ => cases hoperation
  | super x method =>
    cases e' with
    | super x' method' =>
      simp only [Expr.form, Form.list.injEq, Form.word.injEq, List.cons.injEq, and_true,
        true_and] at h
      exact ⟨he.1.agrees_single he'.1 (by decide), he.2.agrees_name he'.2 h⟩
    | _ => cases hoperation

theorem Expr.agreesAll_of_form {es es' : List Expr} (hes : Expr.WrittenAll es)
    (hes' : Expr.WrittenAll es') (h : Expr.formAll es = Expr.formAll es') :
    Expr.AgreesAll es es' := by
  cases es with
  | nil =>
    cases es' with
    | nil => trivial
    | cons e' es' => cases h
  | cons e es =>
    cases es' with
    | nil => cases h
    | cons e' es' =>
      obtain ⟨hform, hforms⟩ := List.cons.inj h
      exact ⟨Expr.agrees_of_form hes.1 hes'.1 hform, Expr.agreesAll_of_form hes.2 hes'.2 hforms⟩

end

theorem Token.agreesAll_of_lexemes {ps qs : List Token} (hps : ∀ p ∈ ps, p.Stands [.identifier])
    (hqs : ∀ q ∈ qs, q.Stands [.identifier]) (h : ps.map Token.lexeme = qs.map Token.lexeme) :
    List.Forall₂ Token.Agrees ps qs := by
  induction ps generalizing qs with
  | nil =>
    cases qs with
    | nil => exact .nil
    | cons q qs => cases h
  | cons p ps ih =>
    cases qs with
    | nil => cases h
    | cons q qs =>
      obtain ⟨hp, hps⟩ := List.forall_mem_cons.1 hps
      obtain ⟨hq, hqs⟩ := List.forall_mem_cons.1 hqs
      obtain ⟨hlexeme, hlexemes⟩ := List.cons.inj h
      exact .cons (hp.agrees_name hq hlexeme) (ih hps hqs hlexemes)

/-- Functions are shown under the word that introduces them. -/
theorem FunctionDecl.form_eq (word : String) (d : FunctionDecl) :
    d.form word = .list word
      (.signature d.name.lexeme (d.parameters.map Token.lexeme) :: Stmt.formAll d.body) := by
  cases d
  rfl

/-- What follows the name in the form of a class without a superclass is not a word. -/
theorem FunctionDecl.formAll_ne_word (ds : List FunctionDecl) (text : String) (fs : List Form) :
    FunctionDecl.formAll ds ≠ .word text :: fs := by
  cases ds with
  | nil => simp [FunctionDecl.formAll]
  | cons d ds => simp [FunctionDecl.formAll, FunctionDecl.form_eq]

/-- The word that shows the constructor of a statement. -/
def Stmt.tag : Stmt → String
  | .expression _ => ";"
  | .print _ => "print"
  | .var .. => "var"
  | .block _ => "block"
  | .branch .. => "if"
  | .loop .. => "while"
  | .function _ => "fun"
  | .cls .. => "class"
  | .ret .. => "return"

def Form.head? : Form → Option String
  | list head _ => some head
  | _ => none

theorem Stmt.head?_form (s : Stmt) : s.form.head? = some s.tag := by
  cases s with
  | function d => rw [Stmt.form, FunctionDecl.form_eq, Form.head?, Stmt.tag]
  | var _ t | branch _ _ t | cls _ t _ | ret _ t => cases t <;> rfl
  | expression _ | print _ | block _ | loop _ _ => rfl

mutual

theorem Stmt.agrees_of_form {s s' : Stmt} (hs : s.Written) (hs' : s'.Written)
    (h : s.form = s'.form) : s.Agrees s' := by
  have htag : s.tag = s'.tag := by
    have hhead := congrArg Form.head? h
    rwa [Stmt.head?_form, Stmt.head?_form, Option.some.injEq] at hhead
  cases s with
  | expression e =>
    cases s' with
    | expression e' =>
      simp only [Stmt.form, Form.list.injEq, List.cons.injEq, and_true, true_and] at h
      exact Expr.agrees_of_form hs hs' h
    | _ => simp [Stmt.tag] at htag
  | print e =>
    cases s' with
    | print e' =>
      simp only [Stmt.form, Form.list.injEq, List.cons.injEq, and_true, true_and] at h
      exact Expr.agrees_of_form hs hs' h
    | _ => simp [Stmt.tag] at htag
  | var name initial =>
    cases s' with
    | var name' initial' =>
      cases initial <;> cases initial' <;>
        simp only [Stmt.form, Form.list.injEq, Form.word.injEq, List.cons.injEq, and_true,
          true_and, reduceCtorEq, and_false] at h
      · exact hs.1.agrees_name hs'.1 h
      · exact ⟨hs.1.agrees_name hs'.1 h.1, Expr.agrees_of_form hs.2 hs'.2 h.2⟩
    | _ => simp [Stmt.tag] at htag
  | block body =>
    cases s' with
    | block body' => exact Stmt.agreesAll_of_form hs hs' (Form.list.inj h).2
    | _ => simp [Stmt.tag] at htag
  | branch c s t =>
    cases s' with
    | branch c' s' t' =>
      cases t <;> cases t' <;>
        simp only [Stmt.form, Form.list.injEq, List.cons.injEq, and_true, true_and, reduceCtorEq,
          and_false] at h
      · exact ⟨Expr.agrees_of_form hs.1 hs'.1 h.1, Stmt.agrees_of_form hs.2 hs'.2 h.2⟩
      · exact ⟨Expr.agrees_of_form hs.1 hs'.1 h.1, Stmt.agrees_of_form hs.2.1 hs'.2.1 h.2.1,
          Stmt.agrees_of_form hs.2.2 hs'.2.2 h.2.2⟩
    | _ => simp [Stmt.tag] at htag
  | loop c s =>
    cases s' with
    | loop c' s' =>
      simp only [Stmt.form, Form.list.injEq, List.cons.injEq, and_true, true_and] at h
      exact ⟨Expr.agrees_of_form hs.1 hs'.1 h.1, Stmt.agrees_of_form hs.2 hs'.2 h.2⟩
    | _ => simp [Stmt.tag] at htag
  | function d =>
    cases s' with
    | function d' => exact @FunctionDecl.agrees_of_form "fun" d d' hs hs' h
    | _ => simp [Stmt.tag] at htag
  | cls name superclass methods =>
    cases s' with
    | cls name' superclass' methods' =>
      cases superclass <;> cases superclass' <;>
        simp only [Stmt.form, Form.list.injEq, Form.word.injEq, List.cons.injEq, true_and] at h
      · exact ⟨hs.1.agrees_name hs'.1 h.1, FunctionDecl.agreesAll_of_form hs.2.2 hs'.2.2 h.2⟩
      · exact absurd h.2 (FunctionDecl.formAll_ne_word _ _ _)
      · exact absurd h.2.symm (FunctionDecl.formAll_ne_word _ _ _)
      · exact ⟨hs.1.agrees_name hs'.1 h.1, (hs.2.1 _ rfl).agrees_name (hs'.2.1 _ rfl) h.2.1,
          FunctionDecl.agreesAll_of_form hs.2.2 hs'.2.2 h.2.2⟩
    | _ => simp [Stmt.tag] at htag
  | ret keyword value =>
    cases s' with
    | ret keyword' value' =>
      have hkeyword := hs.1.agrees_single hs'.1 (by decide)
      cases value <;> cases value' <;>
        simp only [Stmt.form, Form.list.injEq, List.cons.injEq, and_true, true_and,
          reduceCtorEq] at h
      · exact hkeyword
      · exact ⟨hkeyword, Expr.agrees_of_form hs.2 hs'.2 h⟩
    | _ => simp [Stmt.tag] at htag
termination_by structural s

theorem Stmt.agreesAll_of_form {ss ss' : List Stmt} (hss : Stmt.WrittenAll ss)
    (hss' : Stmt.WrittenAll ss') (h : Stmt.formAll ss = Stmt.formAll ss') :
    Stmt.AgreesAll ss ss' := by
  cases ss with
  | nil =>
    cases ss' with
    | nil => trivial
    | cons s' ss' => cases h
  | cons s ss =>
    cases ss' with
    | nil => cases h
    | cons s' ss' =>
      obtain ⟨hform, hforms⟩ := List.cons.inj h
      exact ⟨Stmt.agrees_of_form hss.1 hss'.1 hform, Stmt.agreesAll_of_form hss.2 hss'.2 hforms⟩
termination_by structural ss

theorem FunctionDecl.agrees_of_form {word : String} {d d' : FunctionDecl} (hd : d.Written)
    (hd' : d'.Written) (h : d.form word = d'.form word) : d.Agrees d' := by
  cases d with
  | mk name parameters body =>
  cases d' with
  | mk name' parameters' body' =>
  simp only [FunctionDecl.form, Form.list.injEq, Form.signature.injEq, List.cons.injEq,
    true_and] at h
  exact ⟨hd.1.agrees_name hd'.1 h.1.1, Token.agreesAll_of_lexemes hd.2.1 hd'.2.1 h.1.2,
    Stmt.agreesAll_of_form hd.2.2 hd'.2.2 h.2⟩
termination_by structural d

theorem FunctionDecl.agreesAll_of_form {ds ds' : List FunctionDecl}
    (hds : FunctionDecl.WrittenAll ds) (hds' : FunctionDecl.WrittenAll ds')
    (h : FunctionDecl.formAll ds = FunctionDecl.formAll ds') : FunctionDecl.AgreesAll ds ds' := by
  cases ds with
  | nil =>
    cases ds' with
    | nil => trivial
    | cons d' ds' => cases h
  | cons d ds =>
    cases ds' with
    | nil => cases h
    | cons d' ds' =>
      obtain ⟨hform, hforms⟩ := List.cons.inj h
      exact ⟨FunctionDecl.agrees_of_form hds.1 hds'.1 hform,
        FunctionDecl.agreesAll_of_form hds.2 hds'.2 hforms⟩
termination_by structural ds

end

namespace Program

/-- Programs with the same outline agree. -/
theorem agrees_of_outline_eq {n n' : Nat} {source source' : String} {p q : Program}
    (hp : (ofSource n source).1 = .ok p) (hq : (ofSource n' source').1 = .ok q)
    (hfinite : Source.NumbersFinite source) (hfinite' : Source.NumbersFinite source')
    (h : p.outline = q.outline) : Stmt.AgreesAll p q := by
  have hwritten := written_ofSource hfinite hp
  have hwritten' := written_ofSource hfinite' hq
  have hchars := congrArg String.toList h
  rw [toList_outline, toList_outline] at hchars
  have hforms := Form.lines_inj hwritten.clear hwritten'.clear hchars
  exact Stmt.agreesAll_of_form hwritten hwritten' hforms

/-- A string with brackets and a line end in it, and a number that is written in two ways. -/
theorem agrees_of_outline_eq_lines :
    let source := "print -1.0 == f(\"(a\n b)\").y;"
    let source' := "print - 1 ==\n  f ( \"(a\n b)\" ) . y ;"
    ∃ p q, (ofSource 0 source).1 = .ok p ∧ (ofSource 7 source').1 = .ok q ∧
      p.outline = "(print (== (- 1) (. (call f \"(a\n b)\") y)))" ∧ Stmt.AgreesAll p q := by
  intro source source'
  have hread (n : Nat) (text : String) (h : (ofSource n text).1.toOption.isSome = true) :
      ∃ p, (ofSource n text).1 = .ok p ∧ (ofSource n text).1.toOption = some p := by
    cases hoption : (ofSource n text).1 with
    | error reports => simp [hoption, Except.toOption] at h
    | ok p => exact ⟨p, rfl, rfl⟩
  obtain ⟨p, hp, hp'⟩ := hread 0 source (by decide +kernel)
  obtain ⟨q, hq, hq'⟩ := hread 7 source' (by decide +kernel)
  have houtline : p.outline = "(print (== (- 1) (. (call f \"(a\n b)\") y)))" := by
    have h : (ofSource 0 source).1.toOption.map outline =
      some "(print (== (- 1) (. (call f \"(a\n b)\") y)))" := by decide +kernel
    simpa [hp'] using h
  have houtline' : q.outline = "(print (== (- 1) (. (call f \"(a\n b)\") y)))" := by
    have h : (ofSource 7 source').1.toOption.map outline =
      some "(print (== (- 1) (. (call f \"(a\n b)\") y)))" := by decide +kernel
    simpa [hq'] using h
  exact ⟨p, q, hp, hq, houtline, agrees_of_outline_eq hp hq (by decide +kernel)
    (by decide +kernel) (houtline.trans houtline'.symm)⟩

end Program

end ClassScript
