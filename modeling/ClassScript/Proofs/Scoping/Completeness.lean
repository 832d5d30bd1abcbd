import ClassScript.Proofs.Scoping.Resolution

/-! # Bound programs break no rule

The analysis of a piece of a program that is bound finds no error, so being bound is all that the
static rules ask for.
-/
namespace ClassScript

/-- A name that may be read is not one that is being given its first value. -/
theorem Scopes.Readable.innermost {Γ : Scopes} {name : String} (h : Γ.Readable name) :
    Γ.innermost? name ≠ some false := by
  intro hfalse
  cases Γ with
  | nil => cases hfalse
  | cons scope Γ =>
    have hget : scope.get? name = some false := hfalse
    have hdistance : Scopes.distance? (scope :: Γ) name = some 0 := by
      simp [Scopes.distance?_cons, Bindings.contains, hget]
    have htrue := h 0 scope hdistance rfl
    rw [hget] at htrue
    cases htrue

namespace Analysis

variable {a : Analysis} {name : Token}

theorem declare_of_fresh (h : Scopes.innermost? a.scopes name.lexeme = none) :
    a.declare name = a.mark name.lexeme false := by
  rw [declare, innermost?_eq, h]
  rfl

theorem errors_introduce (h : Scopes.innermost? a.scopes name.lexeme = none) :
    (a.introduce name).errors = a.errors := by
  rw [introduce, define, declare_of_fresh h, errors_mark, errors_mark]

theorem errors_parameters {parameters : List Token}
    (hnodup : (parameters.map Token.lexeme).Nodup)
    (hfresh : ∀ p ∈ parameters, Scopes.innermost? a.scopes p.lexeme = none) :
    (parameters.foldl introduce a).errors = a.errors := by
  induction parameters generalizing a with
  | nil => rfl
  | cons p parameters ih =>
    obtain ⟨hp, hfresh⟩ := List.forall_mem_cons.1 hfresh
    obtain ⟨hnot, hnodup⟩ := List.nodup_cons.1 hnodup
    refine (ih hnodup fun q hq => ?_).trans (errors_introduce hp)
    have hne : q.lexeme ≠ p.lexeme := fun heq => hnot (heq ▸ List.mem_map_of_mem hq)
    rw [scopes_introduce, Scopes.innermost?_mark_of_ne _ _ hne]
    exact hfresh q hq

end Analysis

section Quiet

variable {R : Recorded}

mutual

theorem Expr.Bound.quiet (ctx : Context) (e : Expr) {a : Analysis} (he : e.Bound R ctx)
    (hscopes : a.scopes = ctx.scopes) : (e.analyze ctx.cls a).errors = a.errors := by
  cases e with
  | constant => rfl
  | grouping e | unary _ e | get e _ => exact Expr.Bound.quiet ctx e he hscopes
  | binary l _ r | logical l _ r =>
    have hl := Expr.Bound.quiet ctx l he.1 hscopes
    have hr := Expr.Bound.quiet ctx r he.2 ((l.moves_analyze ctx.cls a).scopes.trans hscopes)
    exact hr.trans hl
  | «variable» ref =>
    have hinnermost : (a.innermost? ref.name.lexeme == some false) = false := by
      rw [Analysis.innermost?_eq, hscopes]
      exact beq_eq_false_iff_ne.2 he.2.innermost
    rw [Expr.analyze, hinnermost, Analysis.errors_record]
    rfl
  | assign target e =>
    rw [Expr.analyze, Analysis.errors_record]
    exact Expr.Bound.quiet ctx e he.2 hscopes
  | call f _ es =>
    have hf := Expr.Bound.quiet ctx f he.1 hscopes
    have hes := Expr.BoundAll.quiet ctx es he.2 ((f.moves_analyze ctx.cls a).scopes.trans hscopes)
    exact hes.trans hf
  | set e _ v =>
    have hv := Expr.Bound.quiet ctx v he.2 hscopes
    have he := Expr.Bound.quiet ctx e he.1 ((v.moves_analyze ctx.cls a).scopes.trans hscopes)
    exact he.trans hv
  | this ref =>
    rw [Expr.analyze, if_neg he.2.1]
    exact a.errors_record ref
  | super ref _ =>
    have hfault : ctx.cls.superFault? = none := by rw [he.2.1]; rfl
    simp only [Expr.analyze, hfault]
    exact a.errors_record ref

theorem Expr.BoundAll.quiet (ctx : Context) (es : List Expr) {a : Analysis}
    (hes : Expr.BoundAll R ctx es) (hscopes : a.scopes = ctx.scopes) :
    (Expr.analyzeAll ctx.cls es a).errors = a.errors := by
  cases es with
  | nil => rfl
  | cons e es =>
    have he := Expr.Bound.quiet ctx e hes.1 hscopes
    have hrest := Expr.BoundAll.quiet ctx es hes.2
      ((e.moves_analyze ctx.cls a).scopes.trans hscopes)
    exact hrest.trans he

end

mutual

theorem Stmt.Bound.quiet {fn : FunctionContext} (ctx : Context) (s : Stmt) {a : Analysis}
    (hs : s.Bound R fn ctx) (hshape : s.Shaped) (hscopes : a.scopes = ctx.scopes) :
    (s.analyze fn ctx.cls a).errors = a.errors := by
  have hfresh {t : Token} (ht : ctx.Fresh t) : Scopes.innermost? a.scopes t.lexeme = none :=
    hscopes ▸ ht.2
  cases s with
  | expression e | print e => exact Expr.Bound.quiet ctx e hs hscopes
  | var name initial =>
    rw [Stmt.analyze, Analysis.define, Analysis.errors_mark]
    cases initial with
    | none =>
      rw [Analysis.declare_of_fresh (hfresh hs)]
      exact a.errors_mark _ _
    | some e =>
      rw [Analysis.declare_of_fresh (hfresh hs.1)]
      have he := Expr.Bound.quiet (ctx.mark name false) (a := a.mark name.lexeme false) e hs.2
        (by rw [Analysis.scopes_mark, hscopes]; rfl)
      exact he.trans (a.errors_mark _ _)
  | block body =>
    exact Stmt.BoundAll.quiet (ctx.enter .empty) (a := a.openScope) body hs hshape
      (by rw [a.moves_openScope.scopes, hscopes]; rfl)
  | branch c s negative =>
    have hscopes' := (c.moves_analyze ctx.cls a).scopes.trans hscopes
    cases negative with
    | none =>
      have hs' := Stmt.Bound.quiet ctx s hs.2.1 hshape.2.1 hscopes'
      exact hs'.trans (Expr.Bound.quiet ctx c hs.1 hscopes)
    | some t =>
      obtain ⟨hc, ⟨hs, hdeclared⟩, ht, -⟩ := hs
      obtain ⟨-, ⟨hshape, -⟩, hshape', -⟩ := hshape
      have hs' := Stmt.Bound.quiet ctx s hs hshape hscopes'
      have hscopes'' : (s.analyze fn ctx.cls (c.analyze ctx.cls a)).scopes = ctx.scopes := by
        rw [(s.moves_analyze fn ctx.cls _ hshape).scopes, Scopes.after, hdeclared]
        exact hscopes'
      have ht' := Stmt.Bound.quiet ctx t ht hshape' hscopes''
      exact (ht'.trans hs').trans (Expr.Bound.quiet ctx c hc hscopes)
  | loop c s =>
    have hs' := Stmt.Bound.quiet ctx s hs.2.1 hshape.2.1
      ((c.moves_analyze ctx.cls a).scopes.trans hscopes)
    exact hs'.trans (Expr.Bound.quiet ctx c hs.1 hscopes)
  | function d =>
    have hd := FunctionDecl.Bound.quiet (ctx.mark d.name true) (a := a.introduce d.name) d hs.2
      hshape.2 (by rw [Analysis.scopes_introduce, hscopes]; rfl)
    exact hd.trans (Analysis.errors_introduce (hfresh hs.1))
  | cls name superclass methods =>
    cases superclass with
    | none =>
      have hmethods := FunctionDecl.BoundAll.quiet ((ctx.mark name true).enterClass none)
        (a := (a.introduce name).openScope.mark "this" true) methods hs.2 hshape.2.2
        (by rw [(Analysis.moves_open _ _).scopes, Analysis.scopes_introduce, hscopes]; rfl)
      refine hmethods.trans ?_
      rw [Analysis.errors_mark]
      exact Analysis.errors_introduce (hfresh hs.1)
    | some superclass =>
      obtain ⟨hname, hne, -, -, hs⟩ := hs
      have hmethods := FunctionDecl.BoundAll.quiet
        ((ctx.mark name true).enterClass (some superclass))
        (a := ((a.introduce name).enterSuperclass name superclass).openScope.mark "this" true)
        methods hs hshape.2.2 (by
          rw [(Analysis.moves_open _ _).scopes, (Analysis.moves_enterSuperclass _ _ _).scopes,
            Analysis.scopes_introduce, hscopes]
          rfl)
      refine hmethods.trans ?_
      rw [Analysis.errors_mark, Analysis.openScope, Analysis.enterSuperclass, Analysis.errors_mark,
        beq_eq_false_iff_ne.2 hne, Analysis.openScope, Analysis.errors_record]
      exact Analysis.errors_introduce (hfresh hname)
  | ret keyword value =>
    cases value with
    | none =>
      rw [Stmt.analyze, beq_eq_false_iff_ne.2 hs]
      rfl
    | some e =>
      rw [Stmt.analyze, beq_eq_false_iff_ne.2 hs.1, beq_eq_false_iff_ne.2 hs.2.1]
      exact Expr.Bound.quiet ctx e hs.2.2 hscopes

theorem Stmt.BoundAll.quiet {fn : FunctionContext} (ctx : Context) (ss : List Stmt) {a : Analysis}
    (hss : Stmt.BoundAll R fn ctx ss) (hshape : Stmt.ShapedAll ss)
    (hscopes : a.scopes = ctx.scopes) : (Stmt.analyzeAll fn ctx.cls ss a).errors = a.errors := by
  cases ss with
  | nil => rfl
  | cons s ss =>
    have hs := Stmt.Bound.quiet ctx s hss.1 hshape.1 hscopes
    have hrest := Stmt.BoundAll.quiet (ctx.after s) ss hss.2 hshape.2
      (by rw [(s.moves_analyze fn ctx.cls a hshape.1).scopes, hscopes]; rfl)
    exact hrest.trans hs

theorem FunctionDecl.Bound.quiet {fn : FunctionContext} (ctx : Context) (d : FunctionDecl)
    {a : Analysis} (hd : d.Bound R fn ctx) (hshape : d.Shaped) (hscopes : a.scopes = ctx.scopes) :
    (d.analyze fn ctx.cls a).errors = a.errors := by
  cases d with
  | mk name parameters body =>
    have hbody := Stmt.BoundAll.quiet (ctx.enter (parameterScope parameters))
      (a := parameters.foldl Analysis.introduce a.openScope) body hd.2.2 hshape.2
      (by rw [(a.openScope.moves_parameters parameters rfl).scopes, hscopes]; rfl)
    exact hbody.trans (Analysis.errors_parameters hd.1 fun _ _ => rfl)

theorem FunctionDecl.BoundAll.quiet (ctx : Context) (ds : List FunctionDecl) {a : Analysis}
    (hds : FunctionDecl.BoundAll R ctx ds) (hshape : FunctionDecl.ShapedAll ds)
    (hscopes : a.scopes = ctx.scopes) :
    (FunctionDecl.analyzeAll ctx.cls ds a).errors = a.errors := by
  cases ds with
  | nil => rfl
  | cons d ds =>
    have hd := FunctionDecl.Bound.quiet ctx d hds.1 hshape.1 hscopes
    have hrest := FunctionDecl.BoundAll.quiet ctx ds hds.2 hshape.2
      ((d.moves_analyze (methodContext d) ctx.cls a hshape.1).scopes.trans hscopes)
    exact hrest.trans hd

end

end Quiet

/-- A program that is bound, by whatever is recorded for its references, breaks no rule. -/
theorem Program.errors_of_bound {R : Recorded} {program : Program}
    (h : Stmt.BoundAll R .outside {} program) (hshape : Stmt.ShapedAll program)
    (distances : Distances) : (program.analyze distances).errors = #[] :=
  Stmt.BoundAll.quiet {} (a := { distances }) program h hshape rfl

end ClassScript
