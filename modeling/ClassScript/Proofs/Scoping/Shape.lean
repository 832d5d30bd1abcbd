import ClassScript.Proofs.Grammar.Phrase
import ClassScript.Proofs.Scoping.Bound

/-! # The shape of programs that were read

Names in a program that was read from a text are no reserved words, and the branches of an `if` and
the body of a loop are no declarations.
-/
namespace ClassScript

mutual

def Expr.Shaped : Expr → Prop
  | .constant _ => True
  | .grouping e => e.Shaped
  | .unary _ e => e.Shaped
  | .binary l _ r => l.Shaped ∧ r.Shaped
  | .logical l _ r => l.Shaped ∧ r.Shaped
  | .variable ref => ref.name.IsPlain
  | .assign target e => target.name.IsPlain ∧ e.Shaped
  | .call f _ es => f.Shaped ∧ Expr.ShapedAll es
  | .get e _ => e.Shaped
  | .set e _ v => e.Shaped ∧ v.Shaped
  | .this ref => ref.name.lexeme = "this"
  | .super ref _ => ref.name.lexeme = "super"

def Expr.ShapedAll : List Expr → Prop
  | [] => True
  | e :: es => e.Shaped ∧ Expr.ShapedAll es

end

def Expr.ShapedOption : Option Expr → Prop
  | none => True
  | some e => e.Shaped

mutual

def Stmt.Shaped : Stmt → Prop
  | .expression e => e.Shaped
  | .print e => e.Shaped
  | .var name initial => name.IsPlain ∧ Expr.ShapedOption initial
  | .block body => Stmt.ShapedAll body
  | .branch c s none => c.Shaped ∧ s.Shaped ∧ s.declared? = none
  | .branch c s (some t) =>
    c.Shaped ∧ (s.Shaped ∧ s.declared? = none) ∧ t.Shaped ∧ t.declared? = none
  | .loop c s => c.Shaped ∧ s.Shaped ∧ s.declared? = none
  | .function d => d.name.IsPlain ∧ d.Shaped
  | .cls name superclass methods =>
    name.IsPlain ∧ (∀ ref ∈ superclass, ref.name.IsPlain) ∧ FunctionDecl.ShapedAll methods
  | .ret _ value => Expr.ShapedOption value

def Stmt.ShapedAll : List Stmt → Prop
  | [] => True
  | s :: ss => s.Shaped ∧ Stmt.ShapedAll ss

def FunctionDecl.Shaped : FunctionDecl → Prop
  | .mk _ parameters body => (∀ p ∈ parameters, p.IsPlain) ∧ Stmt.ShapedAll body

def FunctionDecl.ShapedAll : List FunctionDecl → Prop
  | [] => True
  | d :: ds => d.Shaped ∧ FunctionDecl.ShapedAll ds

end

/-- Words are written as they should be. -/
structure Token.Spelled (t : Token) : Prop where
  identifier : t.kind = .identifier → t.IsPlain
  this : t.kind = .thisWord → t.lexeme = "this"
  super : t.kind = .superWord → t.lexeme = "super"

namespace Grammar

def Suffix.Shaped : Suffix → Prop
  | .call _ arguments => Expr.ShapedAll arguments
  | .property _ => True

/-- What phrases of a kind build if their words are spelled right. -/
def Phrase.Shaped : (p : Phrase) → p.Tree → Prop
  | .expression, e | .tier _, e | .unary, e | .call, e | .primary, e => Expr.Shaped e
  | .optional, e => Expr.ShapedOption e
  | .operands _, others => ∀ other ∈ others, other.2.Shaped
  | .suffixes, ss => ∀ s ∈ ss, s.Shaped
  | .arguments, es => Expr.ShapedAll es
  | .declarations, ss => Stmt.ShapedAll ss
  | .declaration, s => s.Shaped
  | .methods, ds => FunctionDecl.ShapedAll ds
  | .function, d => d.name.IsPlain ∧ d.Shaped
  | .parameters, ps => ∀ p ∈ ps, p.IsPlain
  | .varDecl, s => s.Shaped
  | .exprStmt, s | .statement _, s => s.Shaped ∧ s.declared? = none
  | .forInitial, initial => ∀ s ∈ initial, s.Shaped

theorem shaped_joinAll (l : Level) {others : List (Token × Expr)} {e : Expr} (he : e.Shaped)
    (hothers : ∀ other ∈ others, other.2.Shaped) : (l.joinAll e others).Shaped := by
  induction others generalizing e with
  | nil => exact he
  | cons other others ih =>
    refine ih ?_ fun o ho => hothers o (List.mem_cons_of_mem _ ho)
    have hother := hothers other List.mem_cons_self
    cases l <;> exact ⟨he, hother⟩

theorem shaped_applyAll {ss : List Suffix} {e : Expr} (he : e.Shaped)
    (hss : ∀ s ∈ ss, s.Shaped) : (Suffix.applyAll e ss).Shaped := by
  induction ss generalizing e with
  | nil => exact he
  | cons s ss ih =>
    refine ih ?_ fun s hs => hss s (List.mem_cons_of_mem _ hs)
    have hs := hss s List.mem_cons_self
    cases s with
    | call paren arguments => exact ⟨he, hs⟩
    | property name => exact he

theorem shaped_forLoop {initial : Option Stmt} {condition increment : Option Expr} {s : Stmt}
    (hinitial : ∀ s ∈ initial, s.Shaped) (hcondition : Expr.ShapedOption condition)
    (hincrement : Expr.ShapedOption increment) (hs : s.Shaped ∧ s.declared? = none) :
    let loop := withInitial
      (.loop (condition.getD (.constant (.bool true))) (withIncrement s increment)) initial
    loop.Shaped ∧ loop.declared? = none := by
  have hcond : (condition.getD (.constant (.bool true))).Shaped := by
    cases condition with
    | none => trivial
    | some e => exact hcondition
  have hbody :
      (withIncrement s increment).Shaped ∧ (withIncrement s increment).declared? = none := by
    cases increment with
    | none => exact hs
    | some e => exact ⟨⟨hs.1, hincrement, trivial⟩, rfl⟩
  cases initial with
  | none => exact ⟨⟨hcond, hbody⟩, rfl⟩
  | some first => exact ⟨⟨hinitial first rfl, ⟨hcond, hbody⟩, trivial⟩, rfl⟩

/-- Phrases whose words are spelled right build trees of the right shape. -/
theorem Builds.shaped {p : Phrase} {w : List Token} {t : p.Tree} (h : Builds p w t)
    (hw : ∀ t ∈ w, t.Spelled) : p.Shaped t := by
  induction h with
  | absent | noOperand | noSuffix | noDeclaration | noMethod | falseWord | trueWord | nilWord
  | literal | noInitial => simp [Phrase.Shaped, Expr.Shaped, Expr.ShapedOption, Stmt.ShapedAll,
      FunctionDecl.ShapedAll]
  | unassigned _ ih | present _ ih | tightest _ ih | call _ ih | variableDecl _ ih
  | expression _ ih => exact ih hw
  | statement _ ih => exact (ih hw).1
  | lastArgument _ ih => exact ⟨ih hw, trivial⟩
  | variableInitial _ ih => simpa [Phrase.Shaped] using ih hw
  | expressionInitial _ ih => simpa [Phrase.Shaped] using (ih hw).1
  | assignVariable _ hname _ _ ih =>
    exact ⟨(hw _ (by simp)).identifier hname, ih fun t ht => hw t (by simp [ht])⟩
  | assignProperty _ _ _ _ _ iho ih =>
    exact ⟨iho fun t ht => hw t (by simp [ht]), ih fun t ht => hw t (by simp [ht])⟩
  | tier _ _ ihu ihv =>
    exact shaped_joinAll _ (ihu fun t ht => hw t (by simp [ht]))
      (ihv fun t ht => hw t (by simp [ht]))
  | operand _ _ _ ihu ihv =>
    exact List.forall_mem_cons.2
      ⟨ihu fun t ht => hw t (by simp [ht]), ihv fun t ht => hw t (by simp [ht])⟩
  | unary _ _ ih => exact ih fun t ht => hw t (by simp [ht])
  | suffixed _ _ ihu ihv =>
    exact shaped_applyAll (ihu fun t ht => hw t (by simp [ht]))
      (ihv fun t ht => hw t (by simp [ht]))
  | callSuffix _ _ _ ih =>
    exact List.forall_mem_cons.2 ⟨trivial, ih fun t ht => hw t (by simp [ht])⟩
  | argumentsSuffix _ _ _ _ _ ihu ihv =>
    exact List.forall_mem_cons.2
      ⟨ihu fun t ht => hw t (by simp [ht]), ihv fun t ht => hw t (by simp [ht])⟩
  | propertySuffix _ _ _ ih =>
    exact List.forall_mem_cons.2 ⟨trivial, ih fun t ht => hw t (by simp [ht])⟩
  | argument _ _ _ ihu ihv =>
    exact ⟨ihu fun t ht => hw t (by simp [ht]), ihv fun t ht => hw t (by simp [ht])⟩
  | name _ h => exact (hw _ (by simp)).identifier h
  | thisWord _ h => exact (hw _ (by simp)).this h
  | superWord _ h => exact (hw _ (by simp)).super h
  | grouping _ _ _ ih => exact ih fun t ht => hw t (by simp [ht])
  | declarations _ _ ihu ihv | methods _ _ ihu ihv =>
    have hu := ihu fun t ht => hw t (by simp [ht])
    have hv := ihv fun t ht => hw t (by simp [ht])
    simp_all [Phrase.Shaped, Stmt.ShapedAll, FunctionDecl.ShapedAll]
  | classDecl _ hname _ _ _ ih =>
    exact ⟨(hw _ (by simp)).identifier hname, by simp, ih fun t ht => hw t (by simp [ht])⟩
  | subclassDecl _ _ hname _ hsuperclass _ _ _ ih =>
    refine ⟨(hw _ (by simp)).identifier hname, ?_, ih fun t ht => hw t (by simp [ht])⟩
    rintro _ ⟨⟩
    exact (hw _ (by simp)).identifier hsuperclass
  | funDecl _ _ ih => exact ih fun t ht => hw t (by simp [ht])
  | plainFunction hname _ _ _ _ _ ih =>
    exact ⟨(hw _ (by simp [FunctionDecl.name])).identifier hname, by simp,
      ih fun t ht => hw t (by simp [ht])⟩
  | function hname _ _ _ _ _ _ _ ihu ih =>
    exact ⟨(hw _ (by simp [FunctionDecl.name])).identifier hname,
      ihu fun t ht => hw t (by simp [ht]), ih fun t ht => hw t (by simp [ht])⟩
  | lastParameter h => simpa [Phrase.Shaped] using (hw _ (by simp)).identifier h
  | parameter h _ _ ih =>
    exact List.forall_mem_cons.2 ⟨(hw _ (by simp)).identifier h, ih fun t ht => hw t (by simp [ht])⟩
  | plainVariable _ hname => exact ⟨(hw _ (by simp)).identifier hname, trivial⟩
  | initialized _ hname _ _ _ ih =>
    exact ⟨(hw _ (by simp)).identifier hname, ih fun t ht => hw t (by simp [ht])⟩
  | exprStmt _ _ ih | print _ _ _ ih | ret _ _ _ ih | block _ _ _ ih =>
    exact ⟨ih fun t ht => hw t (by simp [ht]), rfl⟩
  | ifThen _ _ _ _ _ ihu ihv =>
    exact ⟨⟨ihu fun t ht => hw t (by simp [ht]), ihv fun t ht => hw t (by simp [ht])⟩, rfl⟩
  | ifElse _ _ _ _ _ _ _ ihu ihv ihw =>
    exact ⟨⟨ihu fun t ht => hw t (by simp [ht]), ihv fun t ht => hw t (by simp [ht]),
      ihw fun t ht => hw t (by simp [ht])⟩, rfl⟩
  | loop _ _ _ _ _ ihu ihv =>
    exact ⟨⟨ihu fun t ht => hw t (by simp [ht]), ihv fun t ht => hw t (by simp [ht])⟩, rfl⟩
  | forLoop _ _ _ _ _ _ _ _ ihu ihv ihw ihx =>
    exact shaped_forLoop (ihu fun t ht => hw t (by simp [ht])) (ihv fun t ht => hw t (by simp [ht]))
      (ihw fun t ht => hw t (by simp [ht])) (ihx fun t ht => hw t (by simp [ht]))

end Grammar

end ClassScript
