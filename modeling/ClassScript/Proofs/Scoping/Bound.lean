import ClassScript.Proofs.Tree.References
import ClassScript.Static.Analysis

/-! # Bound programs

The static rules as predicates on trees: every reference has the distance of its name recorded, no
local variable is read before its first value is there, and `this`, `super` and `return` stand where
they may.  A context says what surrounds a piece of a program: the class and the scopes that are
open, each with the names declared in it so far.
-/
namespace ClassScript

theorem Bindings.insert_insert {α : Type} (b : Bindings α) (name : String) (v w : α) :
    (b.insert name v).insert name w = b.insert name w := by
  have h (entries : List (String × α)) :
      insertEntry name w (insertEntry name v entries) = insertEntry name w entries := by
    induction entries with
    | nil => simp [insertEntry]
    | cons entry rest ih =>
      obtain ⟨k, u⟩ := entry
      by_cases hk : name = k <;> simp [insertEntry, hk, ih]
  simp [insert, h]

theorem Bindings.mem_of_get? {α : Type} {b : Bindings α} {name : String} {v : α}
    (h : b.get? name = some v) : (name, v) ∈ b.entries := by
  obtain ⟨entries⟩ := b
  simp only [get?] at h ⊢
  induction entries with
  | nil => cases h
  | cons entry rest ih =>
    unfold getEntry? at h
    split at h
    next hname =>
      obtain rfl : entry.2 = v := by simpa using h
      exact hname ▸ List.mem_cons_self
    next => exact List.mem_cons_of_mem _ (ih h)

/-- What is bound afterwards was bound before or is the new binding. -/
theorem Bindings.mem_insert {α : Type} {b : Bindings α} {name other : String} {v w : α}
    (h : (other, w) ∈ (b.insert name v).entries) : (other, w) ∈ b.entries ∨ w = v := by
  obtain ⟨entries⟩ := b
  simp only [insert] at h ⊢
  induction entries with
  | nil => exact .inr (by simpa [insertEntry] using (Prod.mk.inj (List.mem_singleton.1 h)).2)
  | cons entry rest ih =>
    rw [insertEntry] at h
    split at h
    · rcases List.mem_cons.1 h with heq | hrest
      · exact .inr (Prod.mk.inj heq).2
      · exact .inl (List.mem_cons_of_mem _ hrest)
    · rcases List.mem_cons.1 h with heq | hrest
      · exact .inl (heq ▸ List.mem_cons_self)
      · exact (ih hrest).imp_left (List.mem_cons_of_mem _)

/-- Scopes with the names declared in them, the innermost first; a name is marked once it may be
read. -/
abbrev Scopes := List (Bindings Bool)

/-- Statements that declare a name in the scope they stand in. -/
def Stmt.declared? : Stmt → Option Token
  | .var name _ => some name
  | .function d => some d.name
  | .cls name _ _ => some name
  | _ => none

namespace Scopes

def mark (Γ : Scopes) (name : String) (readable : Bool) : Scopes :=
  match Γ with
  | [] => []
  | scope :: outer => scope.insert name readable :: outer

def innermost? (Γ : Scopes) (name : String) : Option Bool :=
  Γ.head?.bind fun scope => scope.get? name

def distance? (Γ : Scopes) (name : String) : Option Nat :=
  Γ.findIdx? fun scope => scope.contains name

/-- The scopes behind a statement. -/
def after (Γ : Scopes) (s : Stmt) : Scopes :=
  match s.declared? with
  | none => Γ
  | some name => Γ.mark name.lexeme true

/-- Where the name is found, it is marked. -/
def Readable (Γ : Scopes) (name : String) : Prop :=
  ∀ d scope, Γ.distance? name = some d → Γ[d]? = some scope → scope.get? name = some true

/-- All names are marked. -/
def Settled (Γ : Scopes) : Prop := ∀ scope ∈ Γ, ∀ name readable, scope.get? name = some readable →
  readable = true

theorem distance?_cons (scope : Bindings Bool) (Γ : Scopes) (name : String) :
    distance? (scope :: Γ) name =
      if scope.contains name then some 0 else (distance? Γ name).map (· + 1) := by
  simp only [distance?, List.findIdx?_cons]

@[simp] theorem distance?_mark_of_ne (Γ : Scopes) {name other : String} (readable : Bool)
    (h : other ≠ name) : (Γ.mark name readable).distance? other = Γ.distance? other := by
  cases Γ with
  | nil => rfl
  | cons scope Γ =>
    have hcontains : (scope.insert name readable).contains other = scope.contains other := by
      simp [Bindings.contains, h]
    simp only [mark, distance?_cons, hcontains]

@[simp] theorem innermost?_mark_of_ne (Γ : Scopes) {name other : String} (readable : Bool)
    (h : other ≠ name) : (Γ.mark name readable).innermost? other = Γ.innermost? other := by
  cases Γ with
  | nil => rfl
  | cons scope Γ => simp [mark, innermost?, h]

end Scopes

/-- The scope of `this` and the scope of `super`. -/
def implicitScope (name : String) : Bindings Bool := Bindings.empty.insert name true

/-- The scope of a function with its parameters. -/
def parameterScope (parameters : List Token) : Bindings Bool :=
  parameters.foldl (fun scope p => scope.insert p.lexeme true) .empty

/-- What surrounds a piece of a program: the class and the scopes that are open. -/
structure Context where
  cls : ClassContext := .outside
  scopes : Scopes := []

namespace Context

def mark (ctx : Context) (name : Token) (readable : Bool) : Context :=
  { ctx with scopes := ctx.scopes.mark name.lexeme readable }

/-- The context behind a statement. -/
def after (ctx : Context) (s : Stmt) : Context := { ctx with scopes := ctx.scopes.after s }

def enter (ctx : Context) (scope : Bindings Bool) : Context :=
  { ctx with scopes := scope :: ctx.scopes }

theorem mark_mark (ctx : Context) (name : Token) (readable : Bool) :
    (ctx.mark name readable).mark name true = ctx.mark name true := by
  obtain ⟨cls, Γ⟩ := ctx
  cases Γ with
  | nil => rfl
  | cons scope Γ => simp [mark, Scopes.mark, Bindings.insert_insert]

/-- Inside the methods of a class with or without a superclass. -/
def enterClass (ctx : Context) : (superclass : Option Reference) → Context
  | none => ⟨.plain, implicitScope "this" :: ctx.scopes⟩
  | some _ => ⟨.derived, implicitScope "this" :: implicitScope "super" :: ctx.scopes⟩

end Context

/-- A name that is neither `this` nor `super`. -/
def Token.IsPlain (t : Token) : Prop := t.lexeme ≠ "this" ∧ t.lexeme ≠ "super"

theorem get?_foldl_parameters (parameters : List Token) {scope : Bindings Bool} {name : String}
    {readable : Bool}
    (h : (parameters.foldl (fun scope p => scope.insert p.lexeme true) scope).get? name =
      some readable) :
    scope.get? name = some readable ∨ readable = true ∧ ∃ p ∈ parameters, p.lexeme = name := by
  induction parameters generalizing scope with
  | nil => exact .inl h
  | cons p parameters ih =>
    rcases ih h with hscope | ⟨hread, q, hq, hname⟩
    · rw [Bindings.get?_insert] at hscope
      split at hscope
      next heq => exact .inr ⟨by simpa using hscope.symm, p, by simp, heq.symm⟩
      next => exact .inl hscope
    · exact .inr ⟨hread, q, by simp [hq], hname⟩

theorem get?_parameterScope {parameters : List Token} {name : String} {readable : Bool}
    (h : (parameterScope parameters).get? name = some readable) :
    readable = true ∧ ∃ p ∈ parameters, p.lexeme = name := by
  rcases get?_foldl_parameters parameters h with hempty | hmem
  · simp at hempty
  · exact hmem

theorem get?_parameterScope_of_plain {parameters : List Token} (h : ∀ p ∈ parameters, p.IsPlain) :
    (parameterScope parameters).get? "this" = none ∧
      (parameterScope parameters).get? "super" = none := by
  constructor
  · cases hget : (parameterScope parameters).get? "this" with
    | none => rfl
    | some readable =>
      obtain ⟨-, p, hp, hname⟩ := get?_parameterScope hget
      exact absurd hname (h p hp).1
  · cases hget : (parameterScope parameters).get? "super" with
    | none => rfl
    | some readable =>
      obtain ⟨-, p, hp, hname⟩ := get?_parameterScope hget
      exact absurd hname (h p hp).2

/-- Which distances are recorded for which identities; `none` for global names. -/
abbrev Recorded := Nat → Option Nat → Prop

/-- Of these identities, the second says all that the first says. -/
def Recorded.Within (R R' : Recorded) (ids : List Nat) : Prop := ∀ id ∈ ids, ∀ d, R id d → R' id d

section Bound

variable (R : Recorded)

/-- The distance of the reference's name is recorded. -/
def Reference.Resolves (ref : Reference) (Γ : Scopes) : Prop :=
  ref.name.IsPlain ∧ R ref.id (Γ.distance? ref.name.lexeme)

mutual

def Expr.Bound (ctx : Context) : Expr → Prop
  | .constant _ => True
  | .grouping e => e.Bound ctx
  | .unary _ e => e.Bound ctx
  | .binary l _ r => l.Bound ctx ∧ r.Bound ctx
  | .logical l _ r => l.Bound ctx ∧ r.Bound ctx
  | .variable ref => ref.Resolves R ctx.scopes ∧ ctx.scopes.Readable ref.name.lexeme
  | .assign target e => target.Resolves R ctx.scopes ∧ e.Bound ctx
  | .call f _ es => f.Bound ctx ∧ Expr.BoundAll ctx es
  | .get e _ => e.Bound ctx
  | .set e _ v => e.Bound ctx ∧ v.Bound ctx
  | .this ref => ref.name.lexeme = "this" ∧ ctx.cls ≠ .outside ∧
      ∃ d, ctx.scopes.distance? "this" = some d ∧ R ref.id (some d)
  | .super ref _ => ref.name.lexeme = "super" ∧ ctx.cls = .derived ∧
      ∃ d, ctx.scopes.distance? "this" = some d ∧ ctx.scopes.distance? "super" = some (d + 1) ∧
        R ref.id (some (d + 1))

def Expr.BoundAll (ctx : Context) : List Expr → Prop
  | [] => True
  | e :: es => e.Bound ctx ∧ Expr.BoundAll ctx es

end

/-- A name that may be declared here: it is not declared yet in the innermost scope. -/
def Context.Fresh (ctx : Context) (name : Token) : Prop :=
  name.IsPlain ∧ ctx.scopes.innermost? name.lexeme = none

/-- The context of a method. -/
def methodContext (d : FunctionDecl) : FunctionContext :=
  if d.name.lexeme = initializerName then .initializer else .method

mutual

def Stmt.Bound (fn : FunctionContext) (ctx : Context) : Stmt → Prop
  | .expression e => e.Bound R ctx
  | .print e => e.Bound R ctx
  | .var name none => ctx.Fresh name
  | .var name (some e) => ctx.Fresh name ∧ e.Bound R (ctx.mark name false)
  | .block body => Stmt.BoundAll fn (ctx.enter .empty) body
  | .branch c s none => c.Bound R ctx ∧ s.Bound fn ctx ∧ s.declared? = none
  | .branch c s (some t) =>
    c.Bound R ctx ∧ (s.Bound fn ctx ∧ s.declared? = none) ∧ t.Bound fn ctx ∧ t.declared? = none
  | .loop c s => c.Bound R ctx ∧ s.Bound fn ctx ∧ s.declared? = none
  | .function d => ctx.Fresh d.name ∧ d.Bound .function (ctx.mark d.name true)
  | .cls name none methods =>
    ctx.Fresh name ∧ FunctionDecl.BoundAll ((ctx.mark name true).enterClass none) methods
  | .cls name (some superclass) methods =>
    ctx.Fresh name ∧ superclass.name.lexeme ≠ name.lexeme ∧ superclass.Resolves R ctx.scopes ∧
      ctx.scopes.Readable superclass.name.lexeme ∧
      FunctionDecl.BoundAll ((ctx.mark name true).enterClass (some superclass)) methods
  | .ret _ none => fn ≠ .outside
  | .ret _ (some e) => fn ≠ .outside ∧ fn ≠ .initializer ∧ e.Bound R ctx

def Stmt.BoundAll (fn : FunctionContext) (ctx : Context) : List Stmt → Prop
  | [] => True
  | s :: ss => s.Bound fn ctx ∧ Stmt.BoundAll fn (ctx.after s) ss

/-- Parameters have different names, and they share their scope with the body. -/
def FunctionDecl.Bound (fn : FunctionContext) (ctx : Context) : FunctionDecl → Prop
  | .mk _ parameters body =>
    (parameters.map Token.lexeme).Nodup ∧ (∀ p ∈ parameters, p.IsPlain) ∧
      Stmt.BoundAll fn (ctx.enter (parameterScope parameters)) body

def FunctionDecl.BoundAll (ctx : Context) : List FunctionDecl → Prop
  | [] => True
  | d :: ds => d.Bound (methodContext d) ctx ∧ FunctionDecl.BoundAll ctx ds

end

end Bound

section Mono

variable {R R' : Recorded}

theorem Recorded.Within.left {xs ys : List Nat} (hR : R.Within R' (xs ++ ys)) : R.Within R' xs :=
  fun id hid => hR id (List.mem_append_left ys hid)

theorem Recorded.Within.right {xs ys : List Nat} (hR : R.Within R' (xs ++ ys)) : R.Within R' ys :=
  fun id hid => hR id (List.mem_append_right xs hid)

theorem Reference.Resolves.mono {ref : Reference} (hR : R.Within R' [ref.id]) {Γ : Scopes}
    (h : ref.Resolves R Γ) : ref.Resolves R' Γ :=
  ⟨h.1, hR _ List.mem_cons_self _ h.2⟩

mutual

/-- What is bound stays so when more is recorded for its references. -/
theorem Expr.Bound.mono {ctx : Context} (e : Expr) (hR : R.Within R' e.ids) (h : e.Bound R ctx) :
    e.Bound R' ctx := by
  cases e with
  | constant value => trivial
  | grouping e | unary _ e | get e _ => exact Expr.Bound.mono e hR h
  | binary l _ r | logical l _ r | set l _ r =>
    exact ⟨Expr.Bound.mono l hR.left h.1, Expr.Bound.mono r hR.right h.2⟩
  | «variable» ref => exact ⟨h.1.mono hR, h.2⟩
  | assign target e => exact ⟨h.1.mono hR.right, Expr.Bound.mono e hR.left h.2⟩
  | call f _ es => exact ⟨Expr.Bound.mono f hR.left h.1, Expr.BoundAll.mono es hR.right h.2⟩
  | this ref =>
    obtain ⟨hname, hcls, d, hd, hrecorded⟩ := h
    exact ⟨hname, hcls, d, hd, hR _ List.mem_cons_self _ hrecorded⟩
  | super ref _ =>
    obtain ⟨hname, hcls, d, hthis, hsuper, hrecorded⟩ := h
    exact ⟨hname, hcls, d, hthis, hsuper, hR _ List.mem_cons_self _ hrecorded⟩

theorem Expr.BoundAll.mono {ctx : Context} (es : List Expr) (hR : R.Within R' (Expr.idsAll es))
    (h : Expr.BoundAll R ctx es) : Expr.BoundAll R' ctx es := by
  cases es with
  | nil => trivial
  | cons e es => exact ⟨Expr.Bound.mono e hR.left h.1, Expr.BoundAll.mono es hR.right h.2⟩

end

mutual

theorem Stmt.Bound.mono {fn : FunctionContext} {ctx : Context} (s : Stmt)
    (hR : R.Within R' s.ids) (h : s.Bound R fn ctx) : s.Bound R' fn ctx := by
  cases s with
  | expression e | print e => exact Expr.Bound.mono e hR h
  | var name initial =>
    cases initial with
    | none => exact h
    | some e => exact ⟨h.1, Expr.Bound.mono e hR h.2⟩
  | block body => exact Stmt.BoundAll.mono body hR h
  | branch c s negative =>
    cases negative with
    | none => exact ⟨Expr.Bound.mono c hR.left h.1, Stmt.Bound.mono s hR.right h.2.1, h.2.2⟩
    | some t =>
      obtain ⟨hc, ⟨hs, hdeclared⟩, ht, hdeclared'⟩ := h
      exact ⟨Expr.Bound.mono c hR.left.left hc,
        ⟨Stmt.Bound.mono s hR.left.right hs, hdeclared⟩, Stmt.Bound.mono t hR.right ht,
        hdeclared'⟩
  | loop c s => exact ⟨Expr.Bound.mono c hR.left h.1, Stmt.Bound.mono s hR.right h.2.1, h.2.2⟩
  | function d => exact ⟨h.1, FunctionDecl.Bound.mono d hR h.2⟩
  | cls name superclass methods =>
    cases superclass with
    | none => exact ⟨h.1, FunctionDecl.BoundAll.mono methods hR h.2⟩
    | some superclass =>
      obtain ⟨hname, hne, hresolves, hreadable, hmethods⟩ := h
      have hboth : R.Within R' ([superclass.id] ++ FunctionDecl.idsAll methods) := hR
      exact ⟨hname, hne, hresolves.mono hboth.left, hreadable,
        FunctionDecl.BoundAll.mono methods hboth.right hmethods⟩
  | ret keyword value =>
    cases value with
    | none => exact h
    | some e => exact ⟨h.1, h.2.1, Expr.Bound.mono e hR h.2.2⟩

theorem Stmt.BoundAll.mono {fn : FunctionContext} {ctx : Context} (ss : List Stmt)
    (hR : R.Within R' (Stmt.idsAll ss)) (h : Stmt.BoundAll R fn ctx ss) :
    Stmt.BoundAll R' fn ctx ss := by
  cases ss with
  | nil => trivial
  | cons s ss => exact ⟨Stmt.Bound.mono s hR.left h.1, Stmt.BoundAll.mono ss hR.right h.2⟩

theorem FunctionDecl.Bound.mono {fn : FunctionContext} {ctx : Context} (d : FunctionDecl)
    (hR : R.Within R' d.ids) (h : d.Bound R fn ctx) : d.Bound R' fn ctx := by
  cases d with
  | mk name parameters body => exact ⟨h.1, h.2.1, Stmt.BoundAll.mono body hR h.2.2⟩

theorem FunctionDecl.BoundAll.mono {ctx : Context} (ds : List FunctionDecl)
    (hR : R.Within R' (FunctionDecl.idsAll ds)) (h : FunctionDecl.BoundAll R ctx ds) :
    FunctionDecl.BoundAll R' ctx ds := by
  cases ds with
  | nil => trivial
  | cons d ds =>
    exact ⟨FunctionDecl.Bound.mono d hR.left h.1, FunctionDecl.BoundAll.mono ds hR.right h.2⟩

end

end Mono

section Unique

variable {R : Recorded} {fn : FunctionContext} {ctx : Context}

theorem Stmt.Bound.fresh {s : Stmt} (h : s.Bound R fn ctx) {t : Token} (ht : s.declared? = some t) :
    ctx.Fresh t := by
  cases s with
  | var name initial =>
    obtain rfl : name = t := by simpa [Stmt.declared?] using ht
    cases initial with
    | none => exact h
    | some e => exact h.1
  | function d =>
    obtain rfl : d.name = t := by simpa [Stmt.declared?] using ht
    exact h.1
  | cls name superclass methods =>
    obtain rfl : name = t := by simpa [Stmt.declared?] using ht
    cases superclass with
    | none => exact h.1
    | some superclass => exact h.1
  | _ => cases ht

theorem Scopes.innermost?_after {Γ : Scopes} {name : String} (s : Stmt)
    (h : (Γ.innermost? name).isSome = true) : ((Γ.after s).innermost? name).isSome = true := by
  unfold Scopes.after
  split
  · exact h
  · cases Γ with
    | nil => cases h
    | cons scope Γ =>
      simp only [Scopes.innermost?, Scopes.mark, List.head?_cons, Option.bind_some,
        Bindings.get?_insert] at h ⊢
      split
      · rfl
      · exact h

/-- A name that a scope has already is not declared in it again. -/
theorem Stmt.BoundAll.not_declared {ss : List Stmt} (h : Stmt.BoundAll R fn ctx ss) {name : String}
    (hname : (ctx.scopes.innermost? name).isSome = true) {s : Stmt} (hs : s ∈ ss) {t : Token}
    (ht : s.declared? = some t) : t.lexeme ≠ name := by
  induction ss generalizing ctx with
  | nil => cases hs
  | cons s' ss ih =>
    rcases List.mem_cons.1 hs with rfl | hs
    · rintro rfl
      rw [(h.1.fresh ht).2] at hname
      cases hname
    · exact ih h.2 (Scopes.innermost?_after s' hname) hs

theorem Scopes.after_ne_nil {Γ : Scopes} (h : Γ ≠ []) (s : Stmt) : Γ.after s ≠ [] := by
  unfold Scopes.after
  split
  · exact h
  · cases Γ with
    | nil => exact absurd rfl h
    | cons scope Γ => simp [Scopes.mark]

theorem Scopes.innermost?_declared {Γ : Scopes} (h : Γ ≠ []) {s : Stmt} {t : Token}
    (ht : s.declared? = some t) : ((Γ.after s).innermost? t.lexeme).isSome = true := by
  cases Γ with
  | nil => exact absurd rfl h
  | cons scope Γ => simp [Scopes.after, ht, Scopes.mark, Scopes.innermost?]

/-- No two statements of a scope declare the same name. -/
theorem Stmt.BoundAll.declared_once {ss : List Stmt} (h : Stmt.BoundAll R fn ctx ss)
    (hne : ctx.scopes ≠ []) {s s' : Stmt} (hs : s ∈ ss) (hs' : s' ∈ ss) {t t' : Token}
    (ht : s.declared? = some t) (ht' : s'.declared? = some t') (heq : t.lexeme = t'.lexeme) :
    s = s' := by
  induction ss generalizing ctx with
  | nil => cases hs
  | cons first ss ih =>
    have hafter {s : Stmt} {t : Token} (hs : s = first) (ht : s.declared? = some t) :
        ((ctx.after first).scopes.innermost? t.lexeme).isSome = true := by
      subst hs
      exact Scopes.innermost?_declared hne ht
    rcases List.mem_cons.1 hs with hfirst | hrest
    · rcases List.mem_cons.1 hs' with hfirst' | hrest'
      · rw [hfirst, hfirst']
      · exact absurd heq.symm (Stmt.BoundAll.not_declared h.2 (hafter hfirst ht) hrest' ht')
    · rcases List.mem_cons.1 hs' with hfirst' | hrest'
      · exact absurd heq (Stmt.BoundAll.not_declared h.2 (hafter hfirst' ht') hrest ht)
      · exact ih h.2 (Scopes.after_ne_nil hne first) hrest hrest'

theorem contains_parameterScope {parameters : List Token} {p : Token} (hp : p ∈ parameters) :
    (parameterScope parameters).contains p.lexeme = true := by
  have hfold (parameters : List Token) (scope : Bindings Bool)
      (h : (∃ q ∈ parameters, q.lexeme = p.lexeme) ∨ (scope.get? p.lexeme).isSome = true) :
      ((parameters.foldl (fun scope p => scope.insert p.lexeme true) scope).get?
        p.lexeme).isSome = true := by
    induction parameters generalizing scope with
    | nil => simpa using h
    | cons q parameters ih =>
      refine ih _ ?_
      rw [Bindings.get?_insert]
      by_cases heq : p.lexeme = q.lexeme
      · exact .inr (by simp [heq])
      · rw [if_neg heq]
        rcases h with ⟨r, hr, hname⟩ | h
        · rcases List.mem_cons.1 hr with rfl | hr
          · exact absurd hname.symm heq
          · exact .inl ⟨r, hr, hname⟩
        · exact .inr h
  exact hfold parameters .empty (.inl ⟨p, hp, rfl⟩)

end Unique

end ClassScript
