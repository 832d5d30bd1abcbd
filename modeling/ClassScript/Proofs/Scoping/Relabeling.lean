import ClassScript.Proofs.Scoping.Resolution
import ClassScript.Proofs.Tree.Relabeling

/-! # Analysing relabelled trees

The analysis of a tree with other labels finds the same errors at the relabelled tokens and records
the same distances under the relabelled identities, whatever errors were there before.
-/
namespace ClassScript

open Std (TreeMap)

def StaticError.relabel (ρ : Relabeling) (e : StaticError) : StaticError :=
  ⟨e.token.relabel ρ, e.cause⟩

/-- The second walk is where the first one is, in a relabelled tree.  The distances agree for the
known identities, and the second walk started with errors of its own. -/
structure Analysis.Mirrors (ρ : Relabeling) (known : Nat → Prop) (before : List StaticError)
    (a a' : Analysis) : Prop where
  scopes : a'.scopes = a.scopes
  distances : ∀ i, known i → a'.distances[ρ.number i]? = a.distances[i]?
  errors : a'.errors.toList = before ++ a.errors.toList.map (StaticError.relabel ρ)

namespace Analysis.Mirrors

variable {ρ : Relabeling} {known : Nat → Prop} {before : List StaticError} {a a' : Analysis}

theorem fail (h : Mirrors ρ known before a a') (t : Token) (cause : StaticCause) :
    Mirrors ρ known before (a.fail t cause) (a'.fail (t.relabel ρ) cause) where
  scopes := h.scopes
  distances := h.distances
  errors := by simp [Analysis.fail, h.errors, StaticError.relabel]

theorem failIf (h : Mirrors ρ known before a a') (broken : Bool) (t : Token) (cause : StaticCause) :
    Mirrors ρ known before (a.failIf broken t cause) (a'.failIf broken (t.relabel ρ) cause) := by
  cases broken with
  | false => exact h
  | true => exact h.fail t cause

/-- The scopes change alike, and nothing else does. -/
theorem ofScopes (h : Mirrors ρ known before a a') {b b' : Analysis}
    (hscopes : b'.scopes = b.scopes) (hdistances : b.distances = a.distances)
    (hdistances' : b'.distances = a'.distances) (herrors : b.errors = a.errors)
    (herrors' : b'.errors = a'.errors) : Mirrors ρ known before b b' where
  scopes := hscopes
  distances := by
    rw [hdistances, hdistances']
    exact h.distances
  errors := by
    rw [herrors, herrors']
    exact h.errors

theorem openScope (h : Mirrors ρ known before a a') :
    Mirrors ρ known before a.openScope a'.openScope :=
  h.ofScopes (by rw [Analysis.openScope, h.scopes]; rfl) rfl rfl rfl rfl

theorem closeScope (h : Mirrors ρ known before a a') :
    Mirrors ρ known before a.closeScope a'.closeScope :=
  h.ofScopes (by rw [Analysis.closeScope, h.scopes]; rfl) rfl rfl rfl rfl

theorem mark (h : Mirrors ρ known before a a') (name : String) (readable : Bool) :
    Mirrors ρ known before (a.mark name readable) (a'.mark name readable) :=
  h.ofScopes (by rw [scopes_mark, scopes_mark, h.scopes]) (distances_mark ..) (distances_mark ..)
    (errors_mark ..) (errors_mark ..)

theorem declare (h : Mirrors ρ known before a a') (name : Token) :
    Mirrors ρ known before (a.declare name) (a'.declare (name.relabel ρ)) := by
  have hinnermost : a'.innermost? name.lexeme = a.innermost? name.lexeme := by
    rw [innermost?_eq, innermost?_eq, h.scopes]
  rw [Analysis.declare, Analysis.declare, Token.relabel_lexeme, hinnermost]
  split
  · exact h.fail name _
  · exact h.mark _ _

theorem introduce (h : Mirrors ρ known before a a') (name : Token) :
    Mirrors ρ known before (a.introduce name) (a'.introduce (name.relabel ρ)) :=
  (h.declare name).mark _ _

theorem introduceAll (h : Mirrors ρ known before a a') (names : List Token) :
    Mirrors ρ known before (names.foldl Analysis.introduce a)
      ((names.map (Token.relabel ρ)).foldl Analysis.introduce a') := by
  induction names generalizing a a' with
  | nil => exact h
  | cons name names ih => exact ih (h.introduce name)

theorem record (hρ : Function.Injective ρ.number) (h : Mirrors ρ known before a a')
    (ref : Reference) : Mirrors ρ known before (a.record ref) (a'.record (ref.relabel ρ)) := by
  have hdistance : a'.distance? ref.name.lexeme = a.distance? ref.name.lexeme := by
    rw [distance?_eq, distance?_eq, h.scopes]
  rw [Analysis.record, Analysis.record, Reference.relabel_name, Token.relabel_lexeme, hdistance]
  cases a.distance? ref.name.lexeme with
  | none => exact h
  | some d =>
    refine ⟨h.scopes, fun i hi => ?_, h.errors⟩
    simp only [TreeMap.getElem?_insert, Reference.relabel_id, Std.LawfulEqOrd.compare_eq_iff_eq]
    by_cases heq : ref.id = i
    · rw [if_pos heq, if_pos (congrArg ρ.number heq)]
    · rw [if_neg heq, if_neg fun hnumber => heq (hρ hnumber)]
      exact h.distances i hi

theorem enterSuperclass (hρ : Function.Injective ρ.number) (h : Mirrors ρ known before a a')
    (name : Token) (superclass : Reference) :
    Mirrors ρ known before (a.enterSuperclass name superclass)
      (a'.enterSuperclass (name.relabel ρ) (superclass.relabel ρ)) :=
  (((h.failIf _ _ _).record hρ superclass).openScope).mark _ _

end Analysis.Mirrors

open Analysis (Mirrors)

section Analyze

variable {ρ : Relabeling} {known : Nat → Prop} {before : List StaticError}

mutual

theorem Expr.mirrors_analyze (hρ : Function.Injective ρ.number) (cls : ClassContext) (e : Expr)
    {a a' : Analysis} (h : Mirrors ρ known before a a') :
    Mirrors ρ known before (e.analyze cls a) ((e.relabel ρ).analyze cls a') := by
  cases e with
  | constant value => exact h
  | grouping e | unary _ e | get e _ => exact e.mirrors_analyze hρ cls h
  | binary l _ r | logical l _ r => exact r.mirrors_analyze hρ cls (l.mirrors_analyze hρ cls h)
  | «variable» ref =>
    have hinnermost : a'.innermost? ref.name.lexeme = a.innermost? ref.name.lexeme := by
      rw [Analysis.innermost?_eq, Analysis.innermost?_eq, h.scopes]
    rw [Expr.relabel, Expr.analyze, Expr.analyze, Reference.relabel_name, Token.relabel_lexeme,
      hinnermost]
    exact (h.failIf _ _ _).record hρ ref
  | assign target e => exact (e.mirrors_analyze hρ cls h).record hρ target
  | call f _ es => exact Expr.mirrors_analyzeAll hρ cls es (f.mirrors_analyze hρ cls h)
  | set e _ v => exact e.mirrors_analyze hρ cls (v.mirrors_analyze hρ cls h)
  | this ref =>
    rw [Expr.relabel, Expr.analyze, Expr.analyze]
    split
    · exact h.fail ref.name _
    · exact h.record hρ ref
  | super ref _ =>
    rw [Expr.relabel, Expr.analyze, Expr.analyze]
    split
    · exact h.record hρ ref
    · exact (h.fail ref.name _).record hρ ref

theorem Expr.mirrors_analyzeAll (hρ : Function.Injective ρ.number) (cls : ClassContext)
    (es : List Expr) {a a' : Analysis} (h : Mirrors ρ known before a a') :
    Mirrors ρ known before (Expr.analyzeAll cls es a)
      (Expr.analyzeAll cls (Expr.relabelAll ρ es) a') := by
  cases es with
  | nil => exact h
  | cons e es => exact Expr.mirrors_analyzeAll hρ cls es (e.mirrors_analyze hρ cls h)

end

theorem Expr.mirrors_analyzeOption (hρ : Function.Injective ρ.number) (cls : ClassContext)
    (value : Option Expr) {a a' : Analysis} (h : Mirrors ρ known before a a') :
    Mirrors ρ known before (Expr.analyzeOption cls value a)
      (Expr.analyzeOption cls (value.map (Expr.relabel ρ)) a') := by
  cases value with
  | none => exact h
  | some e => exact e.mirrors_analyze hρ cls h

mutual

theorem Stmt.mirrors_analyze (hρ : Function.Injective ρ.number) (fn : FunctionContext)
    (cls : ClassContext) (s : Stmt) {a a' : Analysis} (h : Mirrors ρ known before a a') :
    Mirrors ρ known before (s.analyze fn cls a) ((s.relabel ρ).analyze fn cls a') := by
  cases s with
  | expression e | print e => exact e.mirrors_analyze hρ cls h
  | var name initial =>
    exact (Expr.mirrors_analyzeOption hρ cls initial (h.declare name)).mark _ _
  | block body => exact (Stmt.mirrors_analyzeAll hρ fn cls body h.openScope).closeScope
  | branch c s negative =>
    have hs := s.mirrors_analyze hρ fn cls (c.mirrors_analyze hρ cls h)
    cases negative with
    | none => exact hs
    | some t => exact t.mirrors_analyze hρ fn cls hs
  | loop c s => exact s.mirrors_analyze hρ fn cls (c.mirrors_analyze hρ cls h)
  | function d =>
    rw [Stmt.relabel, Stmt.analyze, Stmt.analyze, FunctionDecl.relabel_name]
    exact d.mirrors_analyze hρ .function cls (h.introduce d.name)
  | cls name superclass methods =>
    cases superclass with
    | none =>
      exact (FunctionDecl.mirrors_analyzeAll hρ .plain methods
        ((h.introduce name).openScope.mark _ _)).closeScope
    | some superclass =>
      exact (FunctionDecl.mirrors_analyzeAll hρ .derived methods
        (((h.introduce name).enterSuperclass hρ name superclass).openScope.mark _ _)).closeScope
          |>.closeScope
  | ret keyword value =>
    cases value with
    | none => exact h.failIf _ keyword _
    | some e => exact e.mirrors_analyze hρ cls ((h.failIf _ keyword _).failIf _ keyword _)

theorem Stmt.mirrors_analyzeAll (hρ : Function.Injective ρ.number) (fn : FunctionContext)
    (cls : ClassContext) (ss : List Stmt) {a a' : Analysis} (h : Mirrors ρ known before a a') :
    Mirrors ρ known before (Stmt.analyzeAll fn cls ss a)
      (Stmt.analyzeAll fn cls (Stmt.relabelAll ρ ss) a') := by
  cases ss with
  | nil => exact h
  | cons s ss => exact Stmt.mirrors_analyzeAll hρ fn cls ss (s.mirrors_analyze hρ fn cls h)

theorem FunctionDecl.mirrors_analyze (hρ : Function.Injective ρ.number) (fn : FunctionContext)
    (cls : ClassContext) (d : FunctionDecl) {a a' : Analysis} (h : Mirrors ρ known before a a') :
    Mirrors ρ known before (d.analyze fn cls a) ((d.relabel ρ).analyze fn cls a') := by
  cases d with
  | mk name parameters body =>
    exact (Stmt.mirrors_analyzeAll hρ fn cls body (h.openScope.introduceAll parameters)).closeScope

theorem FunctionDecl.mirrors_analyzeAll (hρ : Function.Injective ρ.number) (cls : ClassContext)
    (ds : List FunctionDecl) {a a' : Analysis} (h : Mirrors ρ known before a a') :
    Mirrors ρ known before (FunctionDecl.analyzeAll cls ds a)
      (FunctionDecl.analyzeAll cls (FunctionDecl.relabelAll ρ ds) a') := by
  cases ds with
  | nil => exact h
  | cons d ds =>
    rw [FunctionDecl.relabelAll, FunctionDecl.analyzeAll, FunctionDecl.analyzeAll,
      FunctionDecl.relabel_name, Token.relabel_lexeme]
    exact FunctionDecl.mirrors_analyzeAll hρ cls ds (d.mirrors_analyze hρ _ cls h)

end

end Analyze

/-! ### The references of bound code -/

section Recorded

variable {R : Recorded}

mutual

/-- Something is recorded for every reference of bound code. -/
theorem Expr.Bound.recorded {ctx : Context} (e : Expr) (h : e.Bound R ctx) :
    ∀ i ∈ e.ids, ∃ d, R i d := by
  cases e with
  | constant value => simp [Expr.ids]
  | grouping e | unary _ e | get e _ => exact Expr.Bound.recorded e h
  | binary l _ r | logical l _ r | set l _ r =>
    exact List.forall_mem_append.2 ⟨Expr.Bound.recorded l h.1, Expr.Bound.recorded r h.2⟩
  | «variable» ref => exact List.forall_mem_singleton.2 ⟨_, h.1.2⟩
  | assign target e =>
    exact List.forall_mem_append.2
      ⟨Expr.Bound.recorded e h.2, List.forall_mem_singleton.2 ⟨_, h.1.2⟩⟩
  | call f _ es =>
    exact List.forall_mem_append.2 ⟨Expr.Bound.recorded f h.1, Expr.BoundAll.recorded es h.2⟩
  | this ref =>
    obtain ⟨-, -, d, -, hd⟩ := h
    exact List.forall_mem_singleton.2 ⟨_, hd⟩
  | super ref _ =>
    obtain ⟨-, -, d, -, -, hd⟩ := h
    exact List.forall_mem_singleton.2 ⟨_, hd⟩

theorem Expr.BoundAll.recorded {ctx : Context} (es : List Expr) (h : Expr.BoundAll R ctx es) :
    ∀ i ∈ Expr.idsAll es, ∃ d, R i d := by
  cases es with
  | nil => simp [Expr.idsAll]
  | cons e es =>
    exact List.forall_mem_append.2 ⟨Expr.Bound.recorded e h.1, Expr.BoundAll.recorded es h.2⟩

end

mutual

theorem Stmt.Bound.recorded {fn : FunctionContext} {ctx : Context} (s : Stmt)
    (h : s.Bound R fn ctx) : ∀ i ∈ s.ids, ∃ d, R i d := by
  cases s with
  | expression e | print e => exact Expr.Bound.recorded e h
  | var name initial =>
    cases initial with
    | none => simp [Stmt.ids, Expr.idsOption]
    | some e => exact Expr.Bound.recorded e h.2
  | block body => exact Stmt.BoundAll.recorded body h
  | branch c s negative =>
    cases negative with
    | none =>
      exact List.forall_mem_append.2 ⟨Expr.Bound.recorded c h.1, Stmt.Bound.recorded s h.2.1⟩
    | some t =>
      obtain ⟨hc, ⟨hs, -⟩, ht, -⟩ := h
      rw [Stmt.ids, List.forall_mem_append, List.forall_mem_append]
      exact ⟨⟨Expr.Bound.recorded c hc, Stmt.Bound.recorded s hs⟩, Stmt.Bound.recorded t ht⟩
  | loop c s =>
    exact List.forall_mem_append.2 ⟨Expr.Bound.recorded c h.1, Stmt.Bound.recorded s h.2.1⟩
  | function d => exact FunctionDecl.Bound.recorded d h.2
  | cls name superclass methods =>
    cases superclass with
    | none => exact FunctionDecl.BoundAll.recorded methods h.2
    | some superclass =>
      obtain ⟨-, -, href, -, hmethods⟩ := h
      exact List.forall_mem_cons.2 ⟨⟨_, href.2⟩, FunctionDecl.BoundAll.recorded methods hmethods⟩
  | ret keyword value =>
    cases value with
    | none => simp [Stmt.ids, Expr.idsOption]
    | some e => exact Expr.Bound.recorded e h.2.2

theorem Stmt.BoundAll.recorded {fn : FunctionContext} {ctx : Context} (ss : List Stmt)
    (h : Stmt.BoundAll R fn ctx ss) : ∀ i ∈ Stmt.idsAll ss, ∃ d, R i d := by
  cases ss with
  | nil => simp [Stmt.idsAll]
  | cons s ss =>
    exact List.forall_mem_append.2 ⟨Stmt.Bound.recorded s h.1, Stmt.BoundAll.recorded ss h.2⟩

theorem FunctionDecl.Bound.recorded {fn : FunctionContext} {ctx : Context} (d : FunctionDecl)
    (h : d.Bound R fn ctx) : ∀ i ∈ d.ids, ∃ d, R i d := by
  cases d with
  | mk name parameters body => exact Stmt.BoundAll.recorded body h.2.2

theorem FunctionDecl.BoundAll.recorded {ctx : Context} (ds : List FunctionDecl)
    (h : FunctionDecl.BoundAll R ctx ds) : ∀ i ∈ FunctionDecl.idsAll ds, ∃ d, R i d := by
  cases ds with
  | nil => simp [FunctionDecl.idsAll]
  | cons d ds =>
    exact List.forall_mem_append.2
      ⟨FunctionDecl.Bound.recorded d h.1, FunctionDecl.BoundAll.recorded ds h.2⟩

end

end Recorded

end ClassScript
