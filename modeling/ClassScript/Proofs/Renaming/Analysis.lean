import ClassScript.Proofs.Renaming.Alike
import ClassScript.Proofs.Scoping.Completeness

/-! # The analysis of a renamed program

The analysis of two programs that are alike goes the same way: it has the same scopes open but for
the name, records the same distances and finds no error in either.
-/
namespace ClassScript

/-- The two names differ, and neither is `this` or `super`. -/
structure Renaming.Proper (ρ : Renaming) : Prop where
  differ : ρ.old ≠ ρ.new
  old : ρ.old ≠ "this" ∧ ρ.old ≠ "super"
  new : ρ.new ≠ "this" ∧ ρ.new ≠ "super"

namespace Renaming

variable {ρ : Renaming} {name other : String}

theorem name_true_old (ρ : Renaming) : ρ.name true ρ.old = ρ.new := by simp [Renaming.name]

theorem name_of_ne (chosen : Bool) (h : name ≠ ρ.old) : ρ.name chosen name = name := by
  simp [Renaming.name, h]

theorem name_injective {chosen : Bool} (hname : name ≠ ρ.new) (hother : other ≠ ρ.new)
    (h : ρ.name chosen name = ρ.name chosen other) : name = other := by
  unfold Renaming.name at h
  split at h <;> split at h
  · simp_all
  · exact absurd h.symm hother
  · exact absurd h hname
  · exact h

theorem Proper.name_this (h : ρ.Proper) (chosen : Bool) : ρ.name chosen "this" = "this" :=
  name_of_ne chosen h.old.1.symm

theorem Proper.name_super (h : ρ.Proper) (chosen : Bool) : ρ.name chosen "super" = "super" :=
  name_of_ne chosen h.old.2.symm

theorem Proper.name_ne_old (h : ρ.Proper) (name : String) : ρ.name true name ≠ ρ.old := by
  unfold Renaming.name
  split
  · exact h.differ.symm
  next hname => exact fun heq => hname ⟨rfl, heq⟩

end Renaming

theorem Token.Keeps.rename_eq {ρ : Renaming} {chosen : Bool} {t : Token} (h : t.Keeps ρ chosen) :
    t.rename ρ chosen = t := by
  cases chosen with
  | false => exact Token.rename_false ρ t
  | true => rw [Token.rename, Renaming.name_of_ne true (h.2 rfl)]

/-- A scope and what becomes of it if it is chosen or not. -/
structure ScopeAlike (ρ : Renaming) (chosen : Bool) (scope scope' : Bindings Bool) : Prop where
  names : ∀ name, name ≠ ρ.new → scope'.get? (ρ.name chosen name) = scope.get? name
  new : chosen = false → scope'.get? ρ.new = none
  old : chosen = true → scope'.get? ρ.old = none

namespace ScopeAlike

variable {ρ : Renaming} {chosen : Bool} {scope scope' : Bindings Bool}

theorem empty (ρ : Renaming) (chosen : Bool) : ScopeAlike ρ chosen .empty .empty :=
  ⟨fun _ _ => rfl, fun _ => rfl, fun _ => rfl⟩

theorem insert (hρ : ρ.Proper) (h : ScopeAlike ρ chosen scope scope') {name : String}
    (hname : name ≠ ρ.new) (readable : Bool) :
    ScopeAlike ρ chosen (scope.insert name readable)
      (scope'.insert (ρ.name chosen name) readable) where
  names other hother := by
    rw [Bindings.get?_insert, Bindings.get?_insert]
    by_cases heq : other = name
    · rw [if_pos heq, if_pos (by rw [heq])]
    · rw [if_neg heq, if_neg fun h => heq (Renaming.name_injective hother hname h)]
      exact h.names other hother
  new hchosen := by
    subst hchosen
    rw [Bindings.get?_insert, Renaming.name_false, if_neg hname.symm]
    exact h.new rfl
  old hchosen := by
    subst hchosen
    rw [Bindings.get?_insert, if_neg (hρ.name_ne_old name).symm]
    exact h.old rfl

/-- What is not in the scope is not in the other one either, under both of its names. -/
theorem absent (h : ScopeAlike ρ chosen scope scope') {name : String} (hname : name ≠ ρ.new)
    (habsent : scope.get? name = none) (b : Bool) : scope'.get? (ρ.name b name) = none := by
  by_cases hold : name = ρ.old
  · subst hold
    have hsame := (h.names _ hname).trans habsent
    cases b <;> cases chosen
    · exact hsame
    · rw [Renaming.name_false]
      exact h.old rfl
    · rw [Renaming.name_true_old]
      exact h.new rfl
    · exact hsame
  · rw [Renaming.name_of_ne b hold, ← Renaming.name_of_ne chosen hold, h.names name hname, habsent]

end ScopeAlike

/-- Scopes with their marks and what becomes of them. -/
inductive Scopes.Alike (ρ : Renaming) : List Bool → Scopes → Scopes → Prop where
  | nil : Scopes.Alike ρ [] [] []
  | cons {chosen : Bool} {marks : List Bool} {scope scope' : Bindings Bool} {Γ Γ' : Scopes}
      (h : ScopeAlike ρ chosen scope scope') (hΓ : Scopes.Alike ρ marks Γ Γ') :
      Scopes.Alike ρ (chosen :: marks) (scope :: Γ) (scope' :: Γ')

namespace Scopes.Alike

variable {ρ : Renaming} {marks : List Bool} {Γ Γ' : Scopes} {name : String}

/-- A name is found at the same distance, if it is renamed where it is found. -/
theorem distance? (h : Scopes.Alike ρ marks Γ Γ') (hname : name ≠ ρ.new) {b : Bool}
    (hb : ∀ d, Γ.distance? name = some d → marks[d]? = some b) :
    Γ'.distance? (ρ.name b name) = Γ.distance? name := by
  induction h with
  | nil => rfl
  | @cons chosen marks scope scope' Γ Γ' hscope _ ih =>
    rw [Scopes.distance?_cons, Scopes.distance?_cons]
    rw [Scopes.distance?_cons] at hb
    cases hget : scope.get? name with
    | some readable =>
      have hcontains : scope.contains name = true := by simp [Bindings.contains, hget]
      rw [if_pos hcontains] at hb
      obtain rfl : chosen = b := by simpa using hb 0 rfl
      have hcontains' : scope'.contains (ρ.name chosen name) = true := by
        simp [Bindings.contains, hscope.names name hname, hget]
      rw [if_pos hcontains, if_pos hcontains']
    | none =>
      have hcontains : ¬scope.contains name = true := by simp [Bindings.contains, hget]
      have hcontains' : ¬scope'.contains (ρ.name b name) = true := by
        simp [Bindings.contains, hscope.absent hname hget]
      rw [if_neg hcontains] at hb
      rw [if_neg hcontains, if_neg hcontains']
      rw [ih fun d hd => by simpa using hb (d + 1) (by simp [hd])]

theorem innermost?_of_distance? (h : Scopes.Alike ρ marks Γ Γ') (hname : name ≠ ρ.new) {b : Bool}
    (hb : ∀ d, Γ.distance? name = some d → marks[d]? = some b) :
    Γ'.innermost? (ρ.name b name) = Γ.innermost? name := by
  cases h with
  | nil => rfl
  | @cons chosen marks scope scope' Γ Γ' hscope _ =>
    rw [Scopes.distance?_cons] at hb
    cases hget : scope.get? name with
    | some readable =>
      have hcontains : scope.contains name = true := by simp [Bindings.contains, hget]
      rw [if_pos hcontains] at hb
      obtain rfl : chosen = b := by simpa using hb 0 rfl
      exact hscope.names name hname
    | none => exact (hscope.absent hname hget b).trans hget.symm

theorem innermost? (h : Scopes.Alike ρ marks Γ Γ') (hname : name ≠ ρ.new) :
    Γ'.innermost? (ρ.name (marks.headD false) name) = Γ.innermost? name := by
  cases h with
  | nil => rfl
  | cons hscope _ => exact hscope.names name hname

theorem length (h : Scopes.Alike ρ marks Γ Γ') : marks.length = Γ.length := by
  induction h with
  | nil => rfl
  | cons _ _ ih => simp [ih]

theorem mark (hρ : ρ.Proper) (h : Scopes.Alike ρ marks Γ Γ') (hname : name ≠ ρ.new)
    (readable : Bool) :
    Scopes.Alike ρ marks (Γ.mark name readable)
      (Γ'.mark (ρ.name (marks.headD false) name) readable) := by
  cases h with
  | nil => exact .nil
  | cons hscope hΓ => exact .cons (hscope.insert hρ hname readable) hΓ

/-- Where a reference is found, it is renamed if that scope is chosen. -/
theorem leads (h : Scopes.Alike ρ marks Γ Γ') {id : Nat}
    (hid : ρ.distances[id]? = Γ.distance? name) (d : Nat) (hd : Γ.distance? name = some d) :
    marks[d]? = some (ρ.leads marks id) := by
  obtain ⟨hlt, -⟩ := List.findIdx?_eq_some_iff_getElem.1 hd
  rw [← h.length] at hlt
  rw [hd] at hid
  simp [Renaming.leads, hid, hlt]

end Scopes.Alike

/-- Two states of the analysis that are alike. -/
structure Analysis.Alike (ρ : Renaming) (marks : List Bool) (a a' : Analysis) : Prop where
  scopes : Scopes.Alike ρ marks a.scopes a'.scopes
  distances : a'.distances = a.distances
  errors : a'.errors = a.errors

namespace Analysis.Alike

variable {ρ : Renaming} {marks : List Bool} {a a' : Analysis}

theorem recordAt (h : Analysis.Alike ρ marks a a') {ref ref' : Reference} (hid : ref'.id = ref.id)
    (hd : a'.distance? ref'.name.lexeme = a.distance? ref.name.lexeme) :
    Analysis.Alike ρ marks (a.record ref) (a'.record ref') where
  scopes := by
    rw [Analysis.scopes_record, Analysis.scopes_record]
    exact h.scopes
  distances := by
    unfold Analysis.record
    rw [hd, hid]
    split
    · exact h.distances
    · rw [h.distances]
  errors := by
    rw [Analysis.errors_record, Analysis.errors_record]
    exact h.errors

theorem record (h : Analysis.Alike ρ marks a a') {ref : Reference} (hname : ref.name.lexeme ≠ ρ.new)
    (hd : ρ.distances[ref.id]? = Scopes.distance? a.scopes ref.name.lexeme) :
    Analysis.Alike ρ marks (a.record ref) (a'.record (ref.rename ρ marks)) :=
  h.recordAt rfl (h.scopes.distance? hname (h.scopes.leads hd))

/-- A name that the renaming does not touch is recorded under that name. -/
theorem recordKept (h : Analysis.Alike ρ marks a a') {ref : Reference}
    (hnew : ref.name.lexeme ≠ ρ.new) (hold : ref.name.lexeme ≠ ρ.old) :
    Analysis.Alike ρ marks (a.record ref) (a'.record ref) := by
  refine h.recordAt rfl ?_
  rw [Analysis.distance?_eq, Analysis.distance?_eq]
  cases hd : Scopes.distance? a.scopes ref.name.lexeme with
  | none =>
    have hdistance := h.scopes.distance? (b := false) hnew (by simp [hd])
    rwa [Renaming.name_false, hd] at hdistance
  | some d =>
    obtain ⟨hlt, -⟩ := List.findIdx?_eq_some_iff_getElem.1 hd
    rw [← h.scopes.length] at hlt
    have hdistance := h.scopes.distance? (b := marks[d]) hnew (by simp [hd, hlt])
    rwa [Renaming.name_of_ne _ hold, hd] at hdistance

theorem mark (hρ : ρ.Proper) (h : Analysis.Alike ρ marks a a') {name : String}
    (hname : name ≠ ρ.new) (readable : Bool) :
    Analysis.Alike ρ marks (a.mark name readable)
      (a'.mark (ρ.name (marks.headD false) name) readable) where
  scopes := by
    rw [Analysis.scopes_mark, Analysis.scopes_mark]
    exact h.scopes.mark hρ hname readable
  distances := by
    rw [Analysis.distances_mark, Analysis.distances_mark]
    exact h.distances
  errors := by
    rw [Analysis.errors_mark, Analysis.errors_mark]
    exact h.errors

theorem declare (hρ : ρ.Proper) (h : Analysis.Alike ρ marks a a') {name : Token}
    (hname : name.lexeme ≠ ρ.new) (hfresh : Scopes.innermost? a.scopes name.lexeme = none) :
    Analysis.Alike ρ marks (a.declare name) (a'.declare (name.rename ρ (marks.headD false))) := by
  have hfresh' : a'.innermost? (name.rename ρ (marks.headD false)).lexeme = none :=
    (h.scopes.innermost? hname).trans hfresh
  unfold Analysis.declare
  rw [Analysis.innermost?_eq a, hfresh, hfresh']
  exact h.mark hρ hname false

theorem introduce (hρ : ρ.Proper) (h : Analysis.Alike ρ marks a a') {name : Token}
    (hname : name.lexeme ≠ ρ.new) (hfresh : Scopes.innermost? a.scopes name.lexeme = none) :
    Analysis.Alike ρ marks (a.introduce name)
      (a'.introduce (name.rename ρ (marks.headD false))) :=
  (h.declare hρ hname hfresh).mark hρ hname true

theorem openScope (h : Analysis.Alike ρ marks a a') (chosen : Bool) :
    Analysis.Alike ρ (chosen :: marks) a.openScope a'.openScope :=
  ⟨.cons (.empty ρ chosen) h.scopes, h.distances, h.errors⟩

theorem closeScope {chosen : Bool} (h : Analysis.Alike ρ (chosen :: marks) a a') :
    Analysis.Alike ρ marks a.closeScope a'.closeScope := by
  refine ⟨?_, h.distances, h.errors⟩
  obtain ⟨hscopes, -, -⟩ := h
  unfold Analysis.closeScope
  generalize a.scopes = Γ, a'.scopes = Γ' at hscopes
  cases hscopes with
  | cons _ hΓ => exact hΓ

/-- The scope of `this` or `super`. -/
theorem openImplicit (hρ : ρ.Proper) (h : Analysis.Alike ρ marks a a') {name : String}
    (hname : name = "this" ∨ name = "super") :
    Analysis.Alike ρ (false :: marks) (a.openScope.mark name true)
      (a'.openScope.mark name true) := by
  have hne : name ≠ ρ.new := by
    rcases hname with rfl | rfl
    · exact hρ.new.1.symm
    · exact hρ.new.2.symm
  have hmark := (h.openScope false).mark hρ hne true
  rwa [List.headD_cons, Renaming.name_false] at hmark

theorem parameters (hρ : ρ.Proper) {chosen : Bool} {parameters : List Token}
    (h : Analysis.Alike ρ (chosen :: marks) a a') (hnew : ∀ p ∈ parameters, p.lexeme ≠ ρ.new)
    (hnodup : (parameters.map Token.lexeme).Nodup)
    (hfresh : ∀ p ∈ parameters, Scopes.innermost? a.scopes p.lexeme = none) :
    Analysis.Alike ρ (chosen :: marks) (parameters.foldl Analysis.introduce a)
      ((parameters.map (Token.rename ρ chosen)).foldl Analysis.introduce a') := by
  induction parameters generalizing a a' with
  | nil => exact h
  | cons p parameters ih =>
    obtain ⟨hp, hnew⟩ := List.forall_mem_cons.1 hnew
    obtain ⟨hfp, hfresh⟩ := List.forall_mem_cons.1 hfresh
    obtain ⟨hnot, hnodup⟩ := List.nodup_cons.1 hnodup
    refine ih (h.introduce hρ hp hfp) hnew hnodup fun q hq => ?_
    have hne : q.lexeme ≠ p.lexeme := fun heq => hnot (heq ▸ List.mem_map_of_mem hq)
    rw [Analysis.scopes_introduce, Scopes.innermost?_mark_of_ne _ _ hne]
    exact hfresh q hq

theorem failIf (h : Analysis.Alike ρ marks a a') (broken : Bool) (t : Token)
    (cause : StaticCause) : Analysis.Alike ρ marks (a.failIf broken t cause)
      (a'.failIf broken t cause) where
  scopes := by
    rw [Analysis.scopes_failIf, Analysis.scopes_failIf]
    exact h.scopes
  distances := by
    rw [Analysis.distances_failIf, Analysis.distances_failIf]
    exact h.distances
  errors := by
    unfold Analysis.failIf
    split
    · simp [Analysis.fail, h.errors]
    · exact h.errors

theorem enterSuperclass (hρ : ρ.Proper) (h : Analysis.Alike ρ marks a a') {name : Token}
    {ref : Reference} (hname : name.lexeme ≠ ρ.new) (hnew : ref.name.lexeme ≠ ρ.new)
    (hne : ref.name.lexeme ≠ name.lexeme)
    (hd : ρ.distances[ref.id]? = Scopes.distance? a.scopes ref.name.lexeme) :
    Analysis.Alike ρ (false :: marks) (a.enterSuperclass name ref)
      (a'.enterSuperclass name (ref.rename ρ marks)) := by
  have hne' : (ref.rename ρ marks).name.lexeme ≠ name.lexeme := by
    simp only [Reference.rename, Token.rename, Renaming.name]
    split
    · exact hname.symm
    · exact hne
  have hbroken : (ref.name.lexeme == name.lexeme) = false := by simpa using hne
  have hbroken' : ((ref.rename ρ marks).name.lexeme == name.lexeme) = false := by simpa using hne'
  rw [Analysis.enterSuperclass, Analysis.enterSuperclass, hbroken, hbroken']
  exact (h.record hnew hd).openImplicit hρ (.inr rfl)

end Analysis.Alike

/-- What the renaming takes to be recorded. -/
def Renaming.recorded (ρ : Renaming) : Recorded := fun id d => ρ.distances[id]? = d

section Analyze

variable {ρ : Renaming}

mutual

theorem Expr.alike_analyze (hρ : ρ.Proper) (ctx : Context) {marks : List Bool} (e : Expr)
    {a a' : Analysis} (he : e.Bound ρ.recorded ctx) (hlacks : e.Lacks ρ.new)
    (h : Analysis.Alike ρ marks a a') (hscopes : a.scopes = ctx.scopes) :
    Analysis.Alike ρ marks (e.analyze ctx.cls a) ((e.rename ρ marks).analyze ctx.cls a') := by
  cases e with
  | constant c => exact h
  | grouping e | unary _ e | get e _ => exact Expr.alike_analyze hρ ctx e he hlacks h hscopes
  | binary l _ r | logical l _ r =>
    have hl := Expr.alike_analyze hρ ctx l he.1 hlacks.1 h hscopes
    exact Expr.alike_analyze hρ ctx r he.2 hlacks.2 hl
      ((l.moves_analyze ctx.cls a).scopes.trans hscopes)
  | «variable» ref =>
    have hd : ρ.distances[ref.id]? = Scopes.distance? a.scopes ref.name.lexeme :=
      hscopes ▸ he.1.2
    have hreadable : a.innermost? ref.name.lexeme ≠ some false := by
      rw [Analysis.innermost?_eq, hscopes]
      exact he.2.innermost
    have hinnermost : a'.innermost? (ref.rename ρ marks).name.lexeme =
        a.innermost? ref.name.lexeme :=
      h.scopes.innermost?_of_distance? hlacks (h.scopes.leads hd)
    have hbroken : (a.innermost? ref.name.lexeme == some false) = false := by simpa using hreadable
    simp only [Expr.analyze, Expr.rename, hinnermost, hbroken]
    exact h.record hlacks hd
  | assign target e =>
    have he' := Expr.alike_analyze hρ ctx e he.2 hlacks.2 h hscopes
    refine he'.record hlacks.1 ?_
    rw [(e.moves_analyze ctx.cls a).scopes, hscopes]
    exact he.1.2
  | call f _ es =>
    have hf := Expr.alike_analyze hρ ctx f he.1 hlacks.1 h hscopes
    exact Expr.alike_analyzeAll hρ ctx es he.2 hlacks.2 hf
      ((f.moves_analyze ctx.cls a).scopes.trans hscopes)
  | set e _ v =>
    have hv := Expr.alike_analyze hρ ctx v he.2 hlacks.2 h hscopes
    exact Expr.alike_analyze hρ ctx e he.1 hlacks.1 hv
      ((v.moves_analyze ctx.cls a).scopes.trans hscopes)
  | this ref =>
    obtain ⟨hname, hcls, -⟩ := he
    simp only [Expr.rename, Expr.analyze, if_neg hcls]
    exact h.recordKept (hname ▸ hρ.new.1.symm) (hname ▸ hρ.old.1.symm)
  | super ref method =>
    obtain ⟨hname, hcls, -⟩ := he
    have hfault : ctx.cls.superFault? = none := by rw [hcls]; rfl
    simp only [Expr.rename, Expr.analyze, hfault]
    exact h.recordKept (hname ▸ hρ.new.2.symm) (hname ▸ hρ.old.2.symm)

theorem Expr.alike_analyzeAll (hρ : ρ.Proper) (ctx : Context) {marks : List Bool} (es : List Expr)
    {a a' : Analysis} (hes : Expr.BoundAll ρ.recorded ctx es) (hlacks : Expr.LacksAll ρ.new es)
    (h : Analysis.Alike ρ marks a a') (hscopes : a.scopes = ctx.scopes) :
    Analysis.Alike ρ marks (Expr.analyzeAll ctx.cls es a)
      (Expr.analyzeAll ctx.cls (Expr.renameAll ρ marks es) a') := by
  cases es with
  | nil => exact h
  | cons e es =>
    have he := Expr.alike_analyze hρ ctx e hes.1 hlacks.1 h hscopes
    exact Expr.alike_analyzeAll hρ ctx es hes.2 hlacks.2 he
      ((e.moves_analyze ctx.cls a).scopes.trans hscopes)

end

mutual

theorem Stmt.alike_analyze (hρ : ρ.Proper) {fn : FunctionContext} (ctx : Context)
    {marks : List Bool} (s : Stmt) {s' : Stmt} {a a' : Analysis} (halike : Stmt.Alike ρ marks s s')
    (hbound : s.Bound ρ.recorded fn ctx) (hshape : s.Shaped) (h : Analysis.Alike ρ marks a a')
    (hscopes : a.scopes = ctx.scopes) :
    Analysis.Alike ρ marks (s.analyze fn ctx.cls a) (s'.analyze fn ctx.cls a') := by
  have hfresh {t : Token} (ht : ctx.Fresh t) : Scopes.innermost? a.scopes t.lexeme = none := by
    rw [hscopes]
    exact ht.2
  cases halike with
  | @expression _ e he => exact Expr.alike_analyze hρ ctx e hbound he.2 h hscopes
  | @print _ e he => exact Expr.alike_analyze hρ ctx e hbound he.2 h hscopes
  | @declare _ name hname => exact h.introduce hρ hname (hfresh hbound)
  | @var _ name e hname he =>
    have hdeclare := h.declare hρ hname (hfresh hbound.1)
    have hscopes' : (a.declare name).scopes = (ctx.mark name false).scopes := by
      have hnone : a.innermost? name.lexeme = none := hfresh hbound.1
      rw [Analysis.declare, hnone]
      simp [hscopes, Context.mark]
    exact (Expr.alike_analyze hρ (ctx.mark name false) e hbound.2 he.2 hdeclare
      hscopes').mark hρ hname true
  | @block _ chosen body body' hbody =>
    have hscopes' : a.openScope.scopes = (ctx.enter .empty).scopes := by
      rw [Analysis.openScope, hscopes]
      rfl
    exact (Stmt.alike_analyzeAll hρ (ctx.enter .empty) body hbody hbound hshape
      (h.openScope chosen) hscopes').closeScope
  | @ifThen _ c s s' hc hs =>
    have hcondition := Expr.alike_analyze hρ ctx c hbound.1 hc.2 h hscopes
    have hbody := Stmt.alike_analyze hρ ctx s hs hbound.2.1 hshape.2.1 hcondition
      ((c.moves_analyze ctx.cls a).scopes.trans hscopes)
    exact hbody
  | @ifElse _ c s s' t t' hc hs ht =>
    have hcondition := Expr.alike_analyze hρ ctx c hbound.1 hc.2 h hscopes
    have hscopes' := (c.moves_analyze ctx.cls a).scopes.trans hscopes
    have hpositive := Stmt.alike_analyze hρ ctx s hs hbound.2.1.1 hshape.2.1.1 hcondition hscopes'
    have hscopes'' : (s.analyze fn ctx.cls (c.analyze ctx.cls a)).scopes = ctx.scopes := by
      rw [(s.moves_analyze fn ctx.cls _ hshape.2.1.1).scopes, Scopes.after, hshape.2.1.2]
      exact hscopes'
    have hnegative := Stmt.alike_analyze hρ ctx t ht hbound.2.2.1 hshape.2.2.1 hpositive hscopes''
    exact hnegative
  | @loop _ c s s' hc hs =>
    have hcondition := Expr.alike_analyze hρ ctx c hbound.1 hc.2 h hscopes
    have hbody := Stmt.alike_analyze hρ ctx s hs hbound.2.1 hshape.2.1 hcondition
      ((c.moves_analyze ctx.cls a).scopes.trans hscopes)
    exact hbody
  | @function _ d d' hname hd =>
    have hintroduce := h.introduce hρ hname.1 (hfresh hbound.1)
    rw [hname.rename_eq] at hintroduce
    have hscopes' : (a.introduce d.name).scopes = (ctx.mark d.name true).scopes := by
      rw [Analysis.scopes_introduce, hscopes]
      rfl
    simp only [Stmt.analyze, hd.name_eq]
    exact FunctionDecl.alike_analyze hρ (ctx.mark d.name true) d hd hbound.2 hshape.2
      hintroduce hscopes'
  | @plainClass _ name methods methods' hname hmethods =>
    have hintroduce := h.introduce hρ hname.1 (hfresh hbound.1)
    rw [hname.rename_eq] at hintroduce
    refine (FunctionDecl.alike_analyzeAll hρ ((ctx.mark name true).enterClass none) methods
      hmethods hbound.2 hshape.2.2 (hintroduce.openImplicit hρ (.inl rfl)) ?_).closeScope
    simp [Analysis.openScope, hscopes, Context.enterClass, Context.mark, implicitScope]
  | @subclass _ name superclass methods methods' hname hsuperclass hmethods =>
    obtain ⟨hfreshName, hne, hresolves, -, hbound⟩ := hbound
    have hintroduce := h.introduce hρ hname.1 (hfresh hfreshName)
    rw [hname.rename_eq] at hintroduce
    have hd : ρ.distances[superclass.id]? =
        Scopes.distance? (a.introduce name).scopes superclass.name.lexeme := by
      rw [Analysis.scopes_introduce, Scopes.distance?_mark_of_ne _ _ hne, hscopes]
      exact hresolves.2
    have hentered := (hintroduce.enterSuperclass hρ hname.1 hsuperclass hne hd).openImplicit hρ
      (.inl rfl)
    refine (FunctionDecl.alike_analyzeAll hρ ((ctx.mark name true).enterClass (some superclass))
      methods hmethods hbound hshape.2.2 hentered ?_).closeScope.closeScope
    simp [Analysis.openScope, Analysis.enterSuperclass, hscopes, Context.enterClass, Context.mark,
      implicitScope]
  | ret => exact h.failIf _ _ _
  | @retValue _ keyword e he =>
    have hfail := (h.failIf (fn == .outside) keyword .returnOutside).failIf (fn == .initializer)
      keyword .returnFromInitializer
    refine Expr.alike_analyze hρ ctx e hbound.2.2 he.2 hfail ?_
    rw [Analysis.scopes_failIf, Analysis.scopes_failIf, hscopes]
termination_by structural s

theorem Stmt.alike_analyzeAll (hρ : ρ.Proper) {fn : FunctionContext} (ctx : Context)
    {marks : List Bool} (ss : List Stmt) {ss' : List Stmt} {a a' : Analysis}
    (halike : Stmt.AlikeAll ρ marks ss ss') (hbound : Stmt.BoundAll ρ.recorded fn ctx ss)
    (hshape : Stmt.ShapedAll ss) (h : Analysis.Alike ρ marks a a')
    (hscopes : a.scopes = ctx.scopes) :
    Analysis.Alike ρ marks (Stmt.analyzeAll fn ctx.cls ss a)
      (Stmt.analyzeAll fn ctx.cls ss' a') := by
  cases halike with
  | nil => exact h
  | @cons _ s s' ss ss' hs hss =>
    have hfirst := Stmt.alike_analyze hρ ctx s hs hbound.1 hshape.1 h hscopes
    have hscopes' : (s.analyze fn ctx.cls a).scopes = (ctx.after s).scopes := by
      rw [(s.moves_analyze fn ctx.cls a hshape.1).scopes, hscopes]
      rfl
    have hrest := Stmt.alike_analyzeAll hρ (ctx.after s) ss hss hbound.2 hshape.2 hfirst hscopes'
    exact hrest
termination_by structural ss

theorem FunctionDecl.alike_analyze (hρ : ρ.Proper) {fn : FunctionContext} (ctx : Context)
    {marks : List Bool} (d : FunctionDecl) {d' : FunctionDecl} {a a' : Analysis}
    (halike : FunctionDecl.Alike ρ marks d d') (hbound : d.Bound ρ.recorded fn ctx)
    (hshape : d.Shaped) (h : Analysis.Alike ρ marks a a') (hscopes : a.scopes = ctx.scopes) :
    Analysis.Alike ρ marks (d.analyze fn ctx.cls a) (d'.analyze fn ctx.cls a') := by
  cases halike with
  | @mk _ chosen name parameters body body' hparameters hbody =>
    have hentered := (h.openScope chosen).parameters hρ hparameters hbound.1 fun _ _ => rfl
    have hmoves := a.openScope.moves_parameters parameters rfl
    refine (Stmt.alike_analyzeAll hρ (ctx.enter (parameterScope parameters)) body hbody
      hbound.2.2 hshape.2 hentered ?_).closeScope
    rw [hmoves.scopes, hscopes]
    rfl
termination_by structural d

theorem FunctionDecl.alike_analyzeAll (hρ : ρ.Proper) (ctx : Context) {marks : List Bool}
    (ds : List FunctionDecl) {ds' : List FunctionDecl} {a a' : Analysis}
    (halike : FunctionDecl.AlikeAll ρ marks ds ds')
    (hbound : FunctionDecl.BoundAll ρ.recorded ctx ds) (hshape : FunctionDecl.ShapedAll ds)
    (h : Analysis.Alike ρ marks a a') (hscopes : a.scopes = ctx.scopes) :
    Analysis.Alike ρ marks (FunctionDecl.analyzeAll ctx.cls ds a)
      (FunctionDecl.analyzeAll ctx.cls ds' a') := by
  cases halike with
  | nil => exact h
  | @cons _ d d' ds ds' hd hds =>
    have hfirst := FunctionDecl.alike_analyze hρ ctx d hd hbound.1 hshape.1 h hscopes
    simp only [FunctionDecl.analyzeAll, hd.name_eq]
    exact FunctionDecl.alike_analyzeAll hρ ctx ds hds hbound.2 hshape.2 hfirst
      ((d.moves_analyze _ ctx.cls a hshape.1).scopes.trans hscopes)
termination_by structural ds

end

end Analyze

end ClassScript
