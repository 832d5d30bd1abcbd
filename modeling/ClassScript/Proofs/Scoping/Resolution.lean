import ClassScript.Proofs.Scoping.Shape
import ClassScript.Proofs.Tree.References

/-! # What the analysis finds

The analysis of a piece of a program leaves the scopes as they should be behind it and records
distances for the references of that piece only.  If it finds no error, the piece is bound.
-/
namespace ClassScript

open Std (TreeMap)

namespace Scopes

@[simp] theorem mark_cons (scope : Bindings Bool) (Γ : Scopes) (name : String) (readable : Bool) :
    mark (scope :: Γ) name readable = scope.insert name readable :: Γ := rfl

end Scopes

namespace Analysis

@[simp] theorem scopes_fail (a : Analysis) (t : Token) (cause : StaticCause) :
    (a.fail t cause).scopes = a.scopes := rfl

@[simp] theorem distances_fail (a : Analysis) (t : Token) (cause : StaticCause) :
    (a.fail t cause).distances = a.distances := rfl

@[simp] theorem scopes_failIf (a : Analysis) (broken : Bool) (t : Token) (cause : StaticCause) :
    (a.failIf broken t cause).scopes = a.scopes := by
  cases broken <;> rfl

@[simp] theorem distances_failIf (a : Analysis) (broken : Bool) (t : Token) (cause : StaticCause) :
    (a.failIf broken t cause).distances = a.distances := by
  cases broken <;> rfl

@[simp] theorem scopes_mark (a : Analysis) (name : String) (readable : Bool) :
    (a.mark name readable).scopes = Scopes.mark a.scopes name readable := by
  unfold mark Scopes.mark
  split <;> simp_all

@[simp] theorem distances_mark (a : Analysis) (name : String) (readable : Bool) :
    (a.mark name readable).distances = a.distances := by
  unfold mark
  split <;> rfl

@[simp] theorem errors_mark (a : Analysis) (name : String) (readable : Bool) :
    (a.mark name readable).errors = a.errors := by
  unfold mark
  split <;> rfl

@[simp] theorem scopes_record (a : Analysis) (ref : Reference) :
    (a.record ref).scopes = a.scopes := by
  unfold record
  split <;> rfl

@[simp] theorem errors_record (a : Analysis) (ref : Reference) :
    (a.record ref).errors = a.errors := by
  unfold record
  split <;> rfl

theorem innermost?_eq (a : Analysis) (name : String) :
    a.innermost? name = Scopes.innermost? a.scopes name := rfl

theorem distance?_eq (a : Analysis) (name : String) :
    a.distance? name = Scopes.distance? a.scopes name := rfl

/-- Declaring a name and then defining it marks it, whether it was declared before or not. -/
theorem mark_declare (a : Analysis) (name : Token) :
    Scopes.mark (a.declare name).scopes name.lexeme true =
      Scopes.mark a.scopes name.lexeme true := by
  unfold declare
  split
  · rfl
  · rw [scopes_mark]
    cases a.scopes with
    | nil => rfl
    | cons scope Γ => simp [Bindings.insert_insert]

@[simp] theorem scopes_introduce (a : Analysis) (name : Token) :
    (a.introduce name).scopes = Scopes.mark a.scopes name.lexeme true := by
  rw [introduce, define, scopes_mark, mark_declare]

@[simp] theorem distances_declare (a : Analysis) (name : Token) :
    (a.declare name).distances = a.distances := by
  unfold declare
  split <;> simp

@[simp] theorem distances_introduce (a : Analysis) (name : Token) :
    (a.introduce name).distances = a.distances := by
  simp [introduce, define]

/-- From one state of the analysis to a later one: errors only grow, distances are recorded for the
given identities only, and these scopes are left. -/
structure Moves (a : Analysis) (ids : List Nat) (Γ : Scopes) (a' : Analysis) : Prop where
  errors : a.errors.toList <+: a'.errors.toList
  others : ∀ i, i ∉ ids → a'.distances[i]? = a.distances[i]?
  scopes : a'.scopes = Γ

namespace Moves

variable {a a' a'' : Analysis} {xs ys : List Nat} {Γ Γ' : Scopes}

theorem refl (a : Analysis) : Moves a [] a.scopes a := ⟨List.prefix_rfl, fun _ _ => rfl, rfl⟩

theorem trans (h : Moves a xs Γ a') (h' : Moves a' ys Γ' a'') : Moves a (xs ++ ys) Γ' a'' where
  errors := h.errors.trans h'.errors
  others := by
    intro i hi
    simp only [List.mem_append, not_or] at hi
    rw [h'.others i hi.2, h.others i hi.1]
  scopes := h'.scopes

theorem perm (h : Moves a xs Γ a') (hperm : xs.Perm ys) : Moves a ys Γ a' :=
  ⟨h.errors, fun i hi => h.others i fun hmem => hi (hperm.mem_iff.1 hmem), h.scopes⟩

/-- A step that records nothing. -/
theorem quick (herrors : a.errors.toList <+: a'.errors.toList)
    (hdistances : a'.distances = a.distances) (hscopes : a'.scopes = Γ) : Moves a [] Γ a' :=
  ⟨herrors, fun _ _ => by rw [hdistances], hscopes⟩

theorem quiet (h : Moves a xs Γ a') (h' : Moves a' ys Γ' a'') (heq : a''.errors = a.errors) :
    a'.errors = a.errors ∧ a''.errors = a'.errors := by
  have hle := h.errors.length_le
  have hle' := h'.errors.length_le
  have hlen : a''.errors.toList.length = a.errors.toList.length := by rw [heq]
  have hfirst : a.errors.toList = a'.errors.toList := h.errors.eq_of_length (by omega)
  have hsecond : a'.errors.toList = a''.errors.toList := h'.errors.eq_of_length (by omega)
  exact ⟨(Array.toList_inj.1 hfirst).symm, (Array.toList_inj.1 hsecond).symm⟩

end Moves

theorem errors_fail (a : Analysis) (t : Token) (cause : StaticCause) :
    a.errors.toList <+: (a.fail t cause).errors.toList := by
  simp [fail]

theorem errors_failIf (a : Analysis) (broken : Bool) (t : Token) (cause : StaticCause) :
    a.errors.toList <+: (a.failIf broken t cause).errors.toList := by
  cases broken
  · exact List.prefix_rfl
  · exact a.errors_fail t cause

theorem fail_ne (a : Analysis) (t : Token) (cause : StaticCause) :
    (a.fail t cause).errors ≠ a.errors := by
  intro h
  have := congrArg Array.size h
  simp [fail] at this

theorem failIf_quiet {a : Analysis} {broken : Bool} {t : Token} {cause : StaticCause}
    (h : (a.failIf broken t cause).errors = a.errors) : broken = false := by
  cases broken
  · rfl
  · exact absurd h (a.fail_ne t cause)

theorem moves_record (a : Analysis) (ref : Reference) :
    Moves a [ref.id] a.scopes (a.record ref) where
  errors := by simp
  scopes := scopes_record a ref
  others := by
    intro i hi
    unfold record
    split
    · rfl
    · have hne : ref.id ≠ i := fun h => hi (by simp [h])
      simp [TreeMap.getElem?_insert, hne]

theorem moves_declare (a : Analysis) (name : Token) :
    Moves a [] (a.declare name).scopes (a.declare name) := by
  refine .quick ?_ (by simp) rfl
  unfold declare
  split
  · exact errors_fail a name _
  · simp

theorem moves_introduce (a : Analysis) (name : Token) :
    Moves a [] (Scopes.mark a.scopes name.lexeme true) (a.introduce name) := by
  refine .quick ?_ (by simp) (by simp)
  rw [introduce, define, errors_mark]
  exact (a.moves_declare name).errors

end Analysis

open Analysis (Moves)

mutual

theorem Expr.moves_analyze (cls : ClassContext) (e : Expr) (a : Analysis) :
    Moves a e.ids a.scopes (e.analyze cls a) := by
  cases e with
  | constant value => exact .refl a
  | grouping e | unary _ e | get e _ => exact e.moves_analyze cls a
  | binary l _ r | logical l _ r =>
    have hl := l.moves_analyze cls a
    have hr := r.moves_analyze cls (l.analyze cls a)
    rw [hl.scopes] at hr
    exact hl.trans hr
  | «variable» ref =>
    rw [Expr.analyze]
    have hfail := Moves.quick (a.errors_failIf (a.innermost? ref.name.lexeme == some false) ref.name
      .ownInitial) (a.distances_failIf _ _ _) (a.scopes_failIf _ _ _)
    have hrecord := Analysis.moves_record (a.failIf (a.innermost? ref.name.lexeme == some false)
      ref.name .ownInitial) ref
    rw [hfail.scopes] at hrecord
    exact hfail.trans hrecord
  | assign target e =>
    have he := e.moves_analyze cls a
    have hrecord := (e.analyze cls a).moves_record target
    rw [he.scopes] at hrecord
    exact he.trans hrecord
  | call f _ es =>
    have hf := f.moves_analyze cls a
    have hes := Expr.moves_analyzeAll cls es (f.analyze cls a)
    rw [hf.scopes] at hes
    exact hf.trans hes
  | set e _ v =>
    have hv := v.moves_analyze cls a
    have he := e.moves_analyze cls (v.analyze cls a)
    rw [hv.scopes] at he
    exact (hv.trans he).perm List.perm_append_comm
  | this ref =>
    rw [Expr.analyze]
    split
    · exact ⟨a.errors_fail _ _, fun _ _ => rfl, rfl⟩
    · exact a.moves_record ref
  | super ref _ =>
    rw [Expr.analyze]
    split
    · exact a.moves_record ref
    next cause _ =>
      have hfail := Moves.quick (a.errors_fail ref.name cause) rfl rfl
      exact hfail.trans ((a.fail ref.name cause).moves_record ref)

theorem Expr.moves_analyzeAll (cls : ClassContext) (es : List Expr) (a : Analysis) :
    Moves a (Expr.idsAll es) a.scopes (Expr.analyzeAll cls es a) := by
  cases es with
  | nil => exact .refl a
  | cons e es =>
    have he := e.moves_analyze cls a
    have hes := Expr.moves_analyzeAll cls es (e.analyze cls a)
    rw [he.scopes] at hes
    exact he.trans hes

end

theorem Expr.moves_analyzeOption (cls : ClassContext) (value : Option Expr) (a : Analysis) :
    Moves a (Expr.idsOption value) a.scopes (Expr.analyzeOption cls value a) := by
  cases value with
  | none => exact .refl a
  | some e => exact e.moves_analyze cls a

theorem Analysis.moves_parameters (parameters : List Token) (a : Analysis) {scope : Bindings Bool}
    {Γ : Scopes} (hscopes : a.scopes = scope :: Γ) :
    Moves a [] (parameters.foldl (fun scope p => scope.insert p.lexeme true) scope :: Γ)
      (parameters.foldl Analysis.introduce a) := by
  induction parameters generalizing a scope with
  | nil => exact hscopes ▸ .refl a
  | cons p parameters ih =>
    have hp := a.moves_introduce p
    have hrest := ih (a.introduce p) (by rw [hp.scopes, hscopes]; rfl)
    exact hp.trans hrest

theorem Analysis.Moves.close {a a' : Analysis} {ids : List Nat} {scope : Bindings Bool} {Γ : Scopes}
    (h : Moves a ids (scope :: Γ) a') : Moves a ids Γ a'.closeScope :=
  ⟨h.errors, h.others, by rw [closeScope, h.scopes]; rfl⟩

theorem Analysis.moves_openScope (a : Analysis) :
    Moves a [] (.empty :: a.scopes) a.openScope :=
  .quick List.prefix_rfl rfl rfl

theorem Analysis.moves_open (a : Analysis) (name : String) :
    Moves a [] (implicitScope name :: a.scopes) (a.openScope.mark name true) :=
  .quick (by rw [errors_mark]; exact List.prefix_rfl) (by rw [distances_mark]; rfl)
    (by rw [scopes_mark]; rfl)

theorem Analysis.moves_enterSuperclass (a : Analysis) (name : Token) (superclass : Reference) :
    Moves a [superclass.id] (implicitScope "super" :: a.scopes)
      (a.enterSuperclass name superclass) := by
  have hfail := Moves.quick (a.errors_failIf (superclass.name.lexeme == name.lexeme) superclass.name
    .inheritsItself) (a.distances_failIf _ _ _) (a.scopes_failIf _ _ _)
  have hrecord := (a.failIf (superclass.name.lexeme == name.lexeme) superclass.name
    .inheritsItself).moves_record superclass
  rw [hfail.scopes] at hrecord
  have hopen := Analysis.moves_open ((a.failIf (superclass.name.lexeme == name.lexeme)
    superclass.name .inheritsItself).record superclass) "super"
  rw [hrecord.scopes] at hopen
  exact (hfail.trans hrecord).trans hopen

/-- The scopes behind a statement list. -/
def Scopes.afterAll (Γ : Scopes) (ss : List Stmt) : Scopes := ss.foldl Scopes.after Γ

theorem Scopes.afterAll_cons (scope : Bindings Bool) (Γ : Scopes) (ss : List Stmt) :
    ∃ scope', Scopes.afterAll (scope :: Γ) ss = scope' :: Γ := by
  induction ss generalizing scope with
  | nil => exact ⟨scope, rfl⟩
  | cons s ss ih =>
    rw [Scopes.afterAll, List.foldl_cons]
    unfold Scopes.after
    split
    · exact ih scope
    · exact ih _

mutual

theorem Stmt.moves_analyze (fn : FunctionContext) (cls : ClassContext) (s : Stmt) (a : Analysis)
    (hs : s.Shaped) : Moves a s.ids (Scopes.after a.scopes s) (s.analyze fn cls a) := by
  cases s with
  | expression e | print e => exact e.moves_analyze cls a
  | var name initial =>
    have hdeclare := a.moves_declare name
    have hinitial := Expr.moves_analyzeOption cls initial (a.declare name)
    have hall := hdeclare.trans hinitial
    refine ⟨?_, ?_, ?_⟩
    · rw [Stmt.analyze, Analysis.define, Analysis.errors_mark]
      exact hall.errors
    · intro i hi
      rw [Stmt.analyze, Analysis.define, Analysis.distances_mark]
      exact hall.others i hi
    · rw [Stmt.analyze, Analysis.define, Analysis.scopes_mark, hinitial.scopes]
      exact a.mark_declare name
  | block body =>
    have hbody := Stmt.moves_analyzeAll fn cls body a.openScope hs
    obtain ⟨scope, hscope⟩ := Scopes.afterAll_cons .empty a.scopes body
    rw [a.moves_openScope.scopes, hscope] at hbody
    exact (a.moves_openScope.trans hbody).close
  | branch c s negative =>
    have hc := c.moves_analyze cls a
    cases negative with
    | none =>
      obtain ⟨-, hshape, hdeclared⟩ := hs
      have hs := s.moves_analyze fn cls (c.analyze cls a) hshape
      rw [hc.scopes, Scopes.after, hdeclared] at hs
      exact hc.trans hs
    | some t =>
      obtain ⟨-, ⟨hshape, hdeclared⟩, hshape', hdeclared'⟩ := hs
      have hs := s.moves_analyze fn cls (c.analyze cls a) hshape
      rw [hc.scopes, Scopes.after, hdeclared] at hs
      have ht := t.moves_analyze fn cls (s.analyze fn cls (c.analyze cls a)) hshape'
      rw [hs.scopes, Scopes.after, hdeclared'] at ht
      exact (hc.trans hs).trans ht
  | loop c s =>
    obtain ⟨-, hshape, hdeclared⟩ := hs
    have hc := c.moves_analyze cls a
    have hs := s.moves_analyze fn cls (c.analyze cls a) hshape
    rw [hc.scopes, Scopes.after, hdeclared] at hs
    exact hc.trans hs
  | function d =>
    have hname := a.moves_introduce d.name
    have hd := d.moves_analyze .function cls (a.introduce d.name) hs.2
    rw [hname.scopes] at hd
    exact hname.trans hd
  | cls name superclass methods =>
    obtain ⟨-, -, hmethods⟩ := hs
    have hname := a.moves_introduce name
    cases superclass with
    | none =>
      have hopen := (a.introduce name).moves_open "this"
      have hds := FunctionDecl.moves_analyzeAll .plain methods
        ((a.introduce name).openScope.mark "this" true) hmethods
      rw [hopen.scopes, hname.scopes] at hds
      exact ((hname.trans hopen).trans hds).close
    | some superclass =>
      have hsuper := (a.introduce name).moves_enterSuperclass name superclass
      have hopen := ((a.introduce name).enterSuperclass name superclass).moves_open "this"
      have hds := FunctionDecl.moves_analyzeAll .derived methods
        (((a.introduce name).enterSuperclass name superclass).openScope.mark "this" true) hmethods
      rw [hopen.scopes, hsuper.scopes, hname.scopes] at hds
      exact (((hname.trans hsuper).trans hopen).trans hds).close.close
  | ret keyword value =>
    have houtside := Moves.quick (a.errors_failIf (fn == .outside) keyword .returnOutside)
      (a.distances_failIf _ _ _) (a.scopes_failIf _ _ _)
    cases value with
    | none => exact houtside
    | some e =>
      have hinitializer := Moves.quick
        ((a.failIf (fn == .outside) keyword .returnOutside).errors_failIf (fn == .initializer)
          keyword .returnFromInitializer) (Analysis.distances_failIf _ _ _ _)
        (Analysis.scopes_failIf _ _ _ _)
      have he := e.moves_analyze cls ((a.failIf (fn == .outside) keyword .returnOutside).failIf
        (fn == .initializer) keyword .returnFromInitializer)
      rw [hinitializer.scopes, houtside.scopes] at he
      exact (houtside.trans hinitializer).trans he

theorem Stmt.moves_analyzeAll (fn : FunctionContext) (cls : ClassContext) (ss : List Stmt)
    (a : Analysis) (hss : Stmt.ShapedAll ss) :
    Moves a (Stmt.idsAll ss) (Scopes.afterAll a.scopes ss) (Stmt.analyzeAll fn cls ss a) := by
  cases ss with
  | nil => exact .refl a
  | cons s ss =>
    have hs := s.moves_analyze fn cls a hss.1
    have hrest := Stmt.moves_analyzeAll fn cls ss (s.analyze fn cls a) hss.2
    rw [hs.scopes] at hrest
    exact hs.trans hrest

theorem FunctionDecl.moves_analyze (fn : FunctionContext) (cls : ClassContext) (d : FunctionDecl)
    (a : Analysis) (hd : d.Shaped) : Moves a d.ids a.scopes (d.analyze fn cls a) := by
  cases d with
  | mk name parameters body =>
    have hparameters := a.openScope.moves_parameters parameters rfl
    have hbody := Stmt.moves_analyzeAll fn cls body
      (parameters.foldl Analysis.introduce a.openScope) hd.2
    obtain ⟨scope, hscope⟩ := Scopes.afterAll_cons (parameterScope parameters) a.scopes body
    rw [hparameters.scopes] at hbody
    exact ((a.moves_openScope.trans hparameters).trans (hscope ▸ hbody)).close

theorem FunctionDecl.moves_analyzeAll (cls : ClassContext) (ds : List FunctionDecl) (a : Analysis)
    (hds : FunctionDecl.ShapedAll ds) :
    Moves a (FunctionDecl.idsAll ds) a.scopes (FunctionDecl.analyzeAll cls ds a) := by
  cases ds with
  | nil => exact .refl a
  | cons d ds =>
    have hd := d.moves_analyze (methodContext d) cls a hds.1
    have hrest := FunctionDecl.moves_analyzeAll cls ds (d.analyze (methodContext d) cls a) hds.2
    rw [hd.scopes] at hrest
    exact hd.trans hrest

end

end ClassScript
