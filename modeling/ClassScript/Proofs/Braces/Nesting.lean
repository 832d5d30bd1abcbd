import ClassScript.Proofs.Braces.Basic
import ClassScript.Proofs.Scoping.Completeness
import ClassScript.Proofs.Scoping.Soundness

/-! # Braces and distances

Braces open a scope without names, so every name outside them is found further out.  A program with
braces around some of its statements is bound if the program without them is, and each reference
leads to the same scope, at a distance that counts the braces too.
-/
namespace ClassScript

/-- The scopes that are open at a place of a program with braces, the innermost first: whether each
is one of the program itself or one of the braces. -/
abbrev Nesting := List Bool

namespace Nesting

/-- How far out a scope of the program is if the braces are counted too. -/
def place : Nesting → Nat → Nat
  | [], d => d
  | true :: _, 0 => 0
  | true :: σ, d + 1 => place σ d + 1
  | false :: σ, d => place σ d + 1

/-- The innermost scope is not one of the braces, so that names may be declared here. -/
def Solid (σ : Nesting) : Prop := σ.head? ≠ some false

theorem solid_nil : Solid [] := by simp [Solid]

theorem solid_cons (σ : Nesting) : Solid (true :: σ) := by simp [Solid]

end Nesting

/-- The second scopes are the first ones with those of the braces between them. -/
inductive Scopes.Padded : Nesting → Scopes → Scopes → Prop where
  | nil : Scopes.Padded [] [] []
  | scope {σ : Nesting} {Γ Γ' : Scopes} (b : Bindings Bool) (h : Scopes.Padded σ Γ Γ') :
      Scopes.Padded (true :: σ) (b :: Γ) (b :: Γ')
  | braces {σ : Nesting} {Γ Γ' : Scopes} (h : Scopes.Padded σ Γ Γ') :
      Scopes.Padded (false :: σ) Γ (.empty :: Γ')

namespace Scopes.Padded

variable {σ : Nesting} {Γ Γ' : Scopes}

theorem distance? (h : Scopes.Padded σ Γ Γ') (name : String) :
    Γ'.distance? name = (Γ.distance? name).map σ.place := by
  induction h with
  | nil => rfl
  | @scope σ Γ Γ' b _ ih =>
    rw [Scopes.distance?_cons, Scopes.distance?_cons, ih]
    split
    · rfl
    · rw [Option.map_map, Option.map_map]
      rfl
  | @braces σ Γ Γ' _ ih =>
    rw [Scopes.distance?_cons, if_neg (by simp [Bindings.contains]), ih, Option.map_map]
    rfl

theorem getElem? (h : Scopes.Padded σ Γ Γ') (d : Nat) : Γ'[σ.place d]? = Γ[d]? := by
  induction h generalizing d with
  | nil => rfl
  | scope b _ ih =>
    cases d with
    | zero => rfl
    | succ d => simpa [Nesting.place] using ih d
  | braces _ ih => simpa [Nesting.place] using ih d

theorem readable (h : Scopes.Padded σ Γ Γ') {name : String} (hread : Γ.Readable name) :
    Γ'.Readable name := by
  intro d scope hd hscope
  rw [h.distance?] at hd
  obtain ⟨d, hfound, rfl⟩ := Option.map_eq_some_iff.1 hd
  exact hread d scope hfound ((h.getElem? d).symm.trans hscope)

theorem innermost? (h : Scopes.Padded σ Γ Γ') (hσ : σ.Solid) (name : String) :
    Γ'.innermost? name = Γ.innermost? name := by
  cases h with
  | nil | scope => rfl
  | braces => exact absurd rfl hσ

theorem mark (h : Scopes.Padded σ Γ Γ') (hσ : σ.Solid) (name : String) (readable : Bool) :
    Scopes.Padded σ (Γ.mark name readable) (Γ'.mark name readable) := by
  cases h with
  | nil => exact .nil
  | scope b h => exact .scope _ h
  | braces => exact absurd rfl hσ

end Scopes.Padded

/-- What surrounds a piece of a program without braces and with them. -/
structure Context.Padded (σ : Nesting) (ctx ctx' : Context) : Prop where
  cls : ctx'.cls = ctx.cls
  scopes : Scopes.Padded σ ctx.scopes ctx'.scopes
  opens : ctx'.Opens

namespace Context.Padded

variable {σ : Nesting} {ctx ctx' : Context}

theorem empty : Context.Padded [] {} {} := ⟨rfl, .nil, trivial⟩

theorem fresh (h : Context.Padded σ ctx ctx') (hσ : σ.Solid) {name : Token}
    (hname : ctx.Fresh name) : ctx'.Fresh name :=
  ⟨hname.1, (h.scopes.innermost? hσ _).trans hname.2⟩

theorem mark (h : Context.Padded σ ctx ctx') (hσ : σ.Solid) {name : Token} (hname : name.IsPlain)
    (readable : Bool) : Context.Padded σ (ctx.mark name readable) (ctx'.mark name readable) :=
  ⟨h.cls, h.scopes.mark hσ _ _, h.opens.mark hname readable⟩

/-- Behind a statement and behind the statement that takes its place. -/
theorem after (h : Context.Padded σ ctx ctx') (hσ : σ.Solid) {s t : Stmt}
    (ht : t.declared? = s.declared?) (hname : ∀ name ∈ s.declared?, name.IsPlain) :
    Context.Padded σ (ctx.after s) (ctx'.after t) := by
  rw [Context.after, Context.after, Scopes.after, Scopes.after, ht]
  cases hs : s.declared? with
  | none => exact h
  | some name => exact h.mark hσ (hname name hs) true

theorem enter (h : Context.Padded σ ctx ctx') {scope : Bindings Bool}
    (hthis : scope.get? "this" = none) (hsuper : scope.get? "super" = none) :
    Context.Padded (true :: σ) (ctx.enter scope) (ctx'.enter scope) :=
  ⟨h.cls, .scope scope h.scopes, h.opens.enter hthis hsuper⟩

theorem braces (h : Context.Padded σ ctx ctx') :
    Context.Padded (false :: σ) ctx (ctx'.enter .empty) :=
  ⟨h.cls, .braces h.scopes, h.opens.enter rfl rfl⟩

theorem enterPlain (h : Context.Padded σ ctx ctx') :
    Context.Padded (true :: σ) (ctx.enterClass none) (ctx'.enterClass none) :=
  ⟨rfl, .scope _ h.scopes, ctx'.opens_enterClass none⟩

theorem enterDerived (h : Context.Padded σ ctx ctx') (superclass : Reference) :
    Context.Padded (true :: true :: σ) (ctx.enterClass (some superclass))
      (ctx'.enterClass (some superclass)) :=
  ⟨rfl, .scope _ (.scope _ h.scopes), ctx'.opens_enterClass (some superclass)⟩

end Context.Padded

/-- What distances record. -/
def Distances.recorded (D : Distances) : Recorded := fun id d => D[id]? = d

section Nested

variable (D D' : Distances)

/-- The reference leads to the same scope, whether the braces are counted or not. -/
def Reference.Placed (σ : Nesting) (ref : Reference) : Prop :=
  D'[ref.id]? = D[ref.id]?.map σ.place

mutual

/-- All references of an expression lead to the same scopes; for `super` the scope of `this` is
directly inside its scope. -/
def Expr.Nested (σ : Nesting) : Expr → Prop
  | .constant _ => True
  | .grouping e => e.Nested σ
  | .unary _ e => e.Nested σ
  | .binary l _ r => l.Nested σ ∧ r.Nested σ
  | .logical l _ r => l.Nested σ ∧ r.Nested σ
  | .variable ref => ref.Placed D D' σ
  | .assign target e => target.Placed D D' σ ∧ e.Nested σ
  | .call f _ es => f.Nested σ ∧ Expr.NestedAll σ es
  | .get e _ => e.Nested σ
  | .set e _ v => e.Nested σ ∧ v.Nested σ
  | .this ref => ref.Placed D D' σ
  | .super ref _ => ∃ d, D[ref.id]? = some (d + 1) ∧ D'[ref.id]? = some (σ.place d + 1) ∧
      σ.place (d + 1) = σ.place d + 1

def Expr.NestedAll (σ : Nesting) : List Expr → Prop
  | [] => True
  | e :: es => e.Nested σ ∧ Expr.NestedAll σ es

end

mutual

/-- The second statement is the first one with braces around some of the statements in it, inside
the scopes of a nesting. -/
inductive Stmt.Nested : Nesting → Stmt → Stmt → Prop where
  | wrap {σ : Nesting} {s t : Stmt} (h : Stmt.Nested (false :: σ) s t) :
      Stmt.Nested σ s (.block [t])
  | expression {σ : Nesting} {e : Expr} (he : e.Nested D D' σ) :
      Stmt.Nested σ (.expression e) (.expression e)
  | print {σ : Nesting} {e : Expr} (he : e.Nested D D' σ) : Stmt.Nested σ (.print e) (.print e)
  | declare {σ : Nesting} {name : Token} (hσ : σ.Solid) :
      Stmt.Nested σ (.var name none) (.var name none)
  | var {σ : Nesting} {name : Token} {e : Expr} (hσ : σ.Solid) (he : e.Nested D D' σ) :
      Stmt.Nested σ (.var name (some e)) (.var name (some e))
  | block {σ : Nesting} {body body' : List Stmt} (h : Stmt.NestedAll (true :: σ) body body') :
      Stmt.Nested σ (.block body) (.block body')
  | ifThen {σ : Nesting} {c : Expr} {s s' : Stmt} (hc : c.Nested D D' σ)
      (hs : Stmt.Nested σ s s') : Stmt.Nested σ (.branch c s none) (.branch c s' none)
  | ifElse {σ : Nesting} {c : Expr} {s s' t t' : Stmt} (hc : c.Nested D D' σ)
      (hs : Stmt.Nested σ s s') (ht : Stmt.Nested σ t t') :
      Stmt.Nested σ (.branch c s (some t)) (.branch c s' (some t'))
  | loop {σ : Nesting} {c : Expr} {s s' : Stmt} (hc : c.Nested D D' σ) (hs : Stmt.Nested σ s s') :
      Stmt.Nested σ (.loop c s) (.loop c s')
  | function {σ : Nesting} {d d' : FunctionDecl} (hσ : σ.Solid) (h : FunctionDecl.Nested σ d d') :
      Stmt.Nested σ (.function d) (.function d')
  | plainClass {σ : Nesting} {name : Token} {methods methods' : List FunctionDecl} (hσ : σ.Solid)
      (h : FunctionDecl.NestedAll (true :: σ) methods methods') :
      Stmt.Nested σ (.cls name none methods) (.cls name none methods')
  | subclass {σ : Nesting} {name : Token} {superclass : Reference}
      {methods methods' : List FunctionDecl} (hσ : σ.Solid)
      (hsuperclass : superclass.Placed D D' σ)
      (h : FunctionDecl.NestedAll (true :: true :: σ) methods methods') :
      Stmt.Nested σ (.cls name (some superclass) methods) (.cls name (some superclass) methods')
  | ret {σ : Nesting} {keyword : Token} : Stmt.Nested σ (.ret keyword none) (.ret keyword none)
  | retValue {σ : Nesting} {keyword : Token} {e : Expr} (he : e.Nested D D' σ) :
      Stmt.Nested σ (.ret keyword (some e)) (.ret keyword (some e))

inductive Stmt.NestedAll : Nesting → List Stmt → List Stmt → Prop where
  | nil {σ : Nesting} : Stmt.NestedAll σ [] []
  | cons {σ : Nesting} {s s' : Stmt} {ss ss' : List Stmt} (hs : Stmt.Nested σ s s')
      (hss : Stmt.NestedAll σ ss ss') : Stmt.NestedAll σ (s :: ss) (s' :: ss')

inductive FunctionDecl.Nested : Nesting → FunctionDecl → FunctionDecl → Prop where
  | mk {σ : Nesting} {name : Token} {parameters : List Token} {body body' : List Stmt}
      (h : Stmt.NestedAll (true :: σ) body body') :
      FunctionDecl.Nested σ (.mk name parameters body) (.mk name parameters body')

inductive FunctionDecl.NestedAll : Nesting → List FunctionDecl → List FunctionDecl → Prop where
  | nil {σ : Nesting} : FunctionDecl.NestedAll σ [] []
  | cons {σ : Nesting} {d d' : FunctionDecl} {ds ds' : List FunctionDecl}
      (hd : FunctionDecl.Nested σ d d') (hds : FunctionDecl.NestedAll σ ds ds') :
      FunctionDecl.NestedAll σ (d :: ds) (d' :: ds')

end

end Nested

/-! ### Programs that are bound -/

/-- Nothing is asked of what is recorded. -/
def Recorded.any : Recorded := fun _ _ => True

section Bound

variable {D D' : Distances} {σ : Nesting} {ctx ctx' : Context}

theorem Context.Padded.placed (h : Context.Padded σ ctx ctx') {ref : Reference}
    (hd : D.recorded ref.id (ctx.scopes.distance? ref.name.lexeme))
    (hd' : D'.recorded ref.id (ctx'.scopes.distance? ref.name.lexeme)) : ref.Placed D D' σ := by
  rw [Reference.Placed, show D[ref.id]? = _ from hd, show D'[ref.id]? = _ from hd',
    h.scopes.distance?]

/-- The scope of `super` and that of `this` inside it are where they should be. -/
theorem Context.Padded.super (h : Context.Padded σ ctx ctx') (hcls : ctx.cls = .derived) :
    ∃ d, ctx'.scopes.distance? "this" = some d ∧ ctx'.scopes.distance? "super" = some (d + 1) := by
  have hopens := h.opens
  rw [Context.Opens, h.cls, hcls] at hopens
  exact hopens

theorem Context.Padded.this (h : Context.Padded σ ctx ctx') {d : Nat}
    (hd : ctx.scopes.distance? "this" = some d) :
    ctx'.scopes.distance? "this" = some (σ.place d) := by
  rw [h.scopes.distance?, hd]
  rfl

mutual

/-- An expression that is bound is bound inside braces too, and its references are placed. -/
theorem Expr.Bound.nested (h : Context.Padded σ ctx ctx') (e : Expr) (he : e.Bound D.recorded ctx) :
    e.Bound .any ctx' ∧ (e.Bound D'.recorded ctx' → e.Nested D D' σ) := by
  cases e with
  | constant => exact ⟨trivial, id⟩
  | grouping e | unary _ e | get e _ => exact Expr.Bound.nested h e he
  | binary l _ r | logical l _ r | set l _ r =>
    obtain ⟨hl, hl'⟩ := Expr.Bound.nested h l he.1
    obtain ⟨hr, hr'⟩ := Expr.Bound.nested h r he.2
    exact ⟨⟨hl, hr⟩, fun hb => ⟨hl' hb.1, hr' hb.2⟩⟩
  | «variable» ref =>
    exact ⟨⟨⟨he.1.1, trivial⟩, h.scopes.readable he.2⟩, fun hb => h.placed he.1.2 hb.1.2⟩
  | assign target e =>
    obtain ⟨hv, hv'⟩ := Expr.Bound.nested h e he.2
    exact ⟨⟨⟨he.1.1, trivial⟩, hv⟩, fun hb => ⟨h.placed he.1.2 hb.1.2, hv' hb.2⟩⟩
  | call f _ es =>
    obtain ⟨hf, hf'⟩ := Expr.Bound.nested h f he.1
    obtain ⟨hes, hes'⟩ := Expr.BoundAll.nested h es he.2
    exact ⟨⟨hf, hes⟩, fun hb => ⟨hf' hb.1, hes' hb.2⟩⟩
  | this ref =>
    obtain ⟨hname, hcls, d, hd, hrecorded⟩ := he
    refine ⟨⟨hname, h.cls ▸ hcls, _, h.this hd, trivial⟩, ?_⟩
    rintro ⟨-, -, d', hd', hrecorded'⟩
    exact h.placed (by rwa [hname, hd]) (by rwa [hname, hd'])
  | super ref _ =>
    obtain ⟨hname, hcls, d, hthis, hsuper, hrecorded⟩ := he
    obtain ⟨d', hthis', hsuper'⟩ := h.super hcls
    obtain rfl : σ.place d = d' := by simpa [h.this hthis] using hthis'
    have hplace : σ.place (d + 1) = σ.place d + 1 := by
      simpa [h.scopes.distance?, hsuper] using hsuper'
    refine ⟨⟨hname, h.cls.trans hcls, _, hthis', hsuper', trivial⟩, ?_⟩
    rintro ⟨-, -, d', hd', -, hrecorded'⟩
    obtain rfl : σ.place d = d' := by simpa [hthis'] using hd'
    exact ⟨d, hrecorded, hrecorded', hplace⟩

theorem Expr.BoundAll.nested (h : Context.Padded σ ctx ctx') (es : List Expr)
    (hes : Expr.BoundAll D.recorded ctx es) :
    Expr.BoundAll .any ctx' es ∧
      (Expr.BoundAll D'.recorded ctx' es → Expr.NestedAll D D' σ es) := by
  cases es with
  | nil => exact ⟨trivial, id⟩
  | cons e es =>
    obtain ⟨he, he'⟩ := Expr.Bound.nested h e hes.1
    obtain ⟨hrest, hrest'⟩ := Expr.BoundAll.nested h es hes.2
    exact ⟨⟨he, hrest⟩, fun hb => ⟨he' hb.1, hrest' hb.2⟩⟩

end

end Bound

section Bound

variable {D D' : Distances}

mutual

/-- A statement that is bound is bound with braces in it too, and the two are nested.  Where it
declares a name, it may not stand directly inside braces. -/
theorem Stmt.Braced.nested {σ : Nesting} {fn : FunctionContext} {ctx ctx' : Context} {s : Stmt}
    (t : Stmt) (hbraced : Stmt.Braced s t) (h : Context.Padded σ ctx ctx')
    (hplace : s.declared? = none ∨ σ.Solid) (hs : s.Bound D.recorded fn ctx) :
    t.Bound .any fn ctx' ∧ (t.Bound D'.recorded fn ctx' → Stmt.Nested D D' σ s t) := by
  have hsolid {name : Token} (hname : s.declared? = some name) : σ.Solid :=
    hplace.resolve_left fun hnone => by simp [hnone] at hname
  cases hbraced with
  | @wrap _ t hnone hbraced =>
    obtain ⟨ht, ht'⟩ := Stmt.Braced.nested t hbraced h.braces (.inl hnone) hs
    exact ⟨⟨ht, trivial⟩, fun hb => .wrap (ht' hb.1)⟩
  | expression e =>
    obtain ⟨he, he'⟩ := Expr.Bound.nested h e hs
    exact ⟨he, fun hb => .expression (he' hb)⟩
  | print e =>
    obtain ⟨he, he'⟩ := Expr.Bound.nested h e hs
    exact ⟨he, fun hb => .print (he' hb)⟩
  | var name initial =>
    have hσ := hsolid rfl
    cases initial with
    | none => exact ⟨h.fresh hσ hs, fun _ => .declare hσ⟩
    | some e =>
      obtain ⟨he, he'⟩ := Expr.Bound.nested (h.mark hσ hs.1.1 false) e hs.2
      exact ⟨⟨h.fresh hσ hs.1, he⟩, fun hb => .var hσ (he' hb.2)⟩
  | @block body body' hbody =>
    obtain ⟨hb, hb'⟩ := Stmt.BracedAll.nested body' hbody (h.enter rfl rfl)
      (Nesting.solid_cons σ) hs
    exact ⟨hb, fun hbound => .block (hb' hbound)⟩
  | @ifThen c s s' hbraced =>
    obtain ⟨hc, hs, hnone⟩ := hs
    obtain ⟨hc, hc'⟩ := Expr.Bound.nested h c hc
    obtain ⟨hs, hs'⟩ := Stmt.Braced.nested s' hbraced h (.inl hnone) hs
    exact ⟨⟨hc, hs, hbraced.declared_eq.trans hnone⟩, fun hb => .ifThen (hc' hb.1) (hs' hb.2.1)⟩
  | @ifElse c s s' t t' hbraced hbraced' =>
    obtain ⟨hc, ⟨hs, hnone⟩, ht, hnone'⟩ := hs
    obtain ⟨hc, hc'⟩ := Expr.Bound.nested h c hc
    obtain ⟨hs, hs'⟩ := Stmt.Braced.nested s' hbraced h (.inl hnone) hs
    obtain ⟨ht, ht'⟩ := Stmt.Braced.nested t' hbraced' h (.inl hnone') ht
    exact ⟨⟨hc, ⟨hs, hbraced.declared_eq.trans hnone⟩, ht, hbraced'.declared_eq.trans hnone'⟩,
      fun hb => .ifElse (hc' hb.1) (hs' hb.2.1.1) (ht' hb.2.2.1)⟩
  | @loop c s s' hbraced =>
    obtain ⟨hc, hs, hnone⟩ := hs
    obtain ⟨hc, hc'⟩ := Expr.Bound.nested h c hc
    obtain ⟨hs, hs'⟩ := Stmt.Braced.nested s' hbraced h (.inl hnone) hs
    exact ⟨⟨hc, hs, hbraced.declared_eq.trans hnone⟩, fun hb => .loop (hc' hb.1) (hs' hb.2.1)⟩
  | @function d d' hbraced =>
    have hσ := hsolid rfl
    obtain ⟨hname, hs⟩ := hs
    obtain ⟨hd, hd'⟩ := FunctionDecl.Braced.nested d' hbraced (h.mark hσ hname.1 true) hs
    rw [← hbraced.name_eq] at hname hd hd'
    exact ⟨⟨h.fresh hσ hname, hd⟩, fun hb => .function hσ (hd' hb.2)⟩
  | @cls name superclass methods methods' hbraced =>
    have hσ := hsolid rfl
    cases superclass with
    | none =>
      obtain ⟨hm, hm'⟩ := FunctionDecl.BracedAll.nested methods' hbraced
        (h.mark hσ hs.1.1 true).enterPlain hs.2
      exact ⟨⟨h.fresh hσ hs.1, hm⟩, fun hb => .plainClass hσ (hm' hb.2)⟩
    | some superclass =>
      obtain ⟨hname, hne, hresolves, hreadable, hs⟩ := hs
      obtain ⟨hm, hm'⟩ := FunctionDecl.BracedAll.nested methods' hbraced
        ((h.mark hσ hname.1 true).enterDerived superclass) hs
      refine ⟨⟨h.fresh hσ hname, hne, ⟨hresolves.1, trivial⟩, h.scopes.readable hreadable, hm⟩, ?_⟩
      rintro ⟨-, -, hresolves', -, hb⟩
      exact .subclass hσ (h.placed hresolves.2 hresolves'.2) (hm' hb)
  | ret keyword value =>
    cases value with
    | none => exact ⟨hs, fun _ => .ret⟩
    | some e =>
      obtain ⟨he, he'⟩ := Expr.Bound.nested h e hs.2.2
      exact ⟨⟨hs.1, hs.2.1, he⟩, fun hb => .retValue (he' hb.2.2)⟩
termination_by structural t

theorem Stmt.BracedAll.nested {σ : Nesting} {fn : FunctionContext} {ctx ctx' : Context}
    {ss : List Stmt} (ts : List Stmt) (hbraced : Stmt.BracedAll ss ts)
    (h : Context.Padded σ ctx ctx') (hσ : σ.Solid) (hss : Stmt.BoundAll D.recorded fn ctx ss) :
    Stmt.BoundAll .any fn ctx' ts ∧
      (Stmt.BoundAll D'.recorded fn ctx' ts → Stmt.NestedAll D D' σ ss ts) := by
  cases hbraced with
  | nil => exact ⟨trivial, fun _ => .nil⟩
  | @cons s t ss ts hs hss' =>
    obtain ⟨ht, ht'⟩ := Stmt.Braced.nested t hs h (.inr hσ) hss.1
    have hafter := h.after hσ hs.declared_eq fun name hname => (hss.1.fresh hname).1
    obtain ⟨hts, hts'⟩ := Stmt.BracedAll.nested ts hss' hafter hσ hss.2
    exact ⟨⟨ht, hts⟩, fun hb => .cons (ht' hb.1) (hts' hb.2)⟩
termination_by structural ts

theorem FunctionDecl.Braced.nested {σ : Nesting} {fn : FunctionContext} {ctx ctx' : Context}
    {d : FunctionDecl} (d' : FunctionDecl) (hbraced : FunctionDecl.Braced d d')
    (h : Context.Padded σ ctx ctx') (hd : d.Bound D.recorded fn ctx) :
    d'.Bound .any fn ctx' ∧
      (d'.Bound D'.recorded fn ctx' → FunctionDecl.Nested D D' σ d d') := by
  cases hbraced with
  | @mk name parameters body body' hbody =>
    obtain ⟨hnodup, hplain, hbound⟩ := hd
    obtain ⟨hthis, hsuper⟩ := get?_parameterScope_of_plain hplain
    obtain ⟨hb, hb'⟩ := Stmt.BracedAll.nested body' hbody (h.enter hthis hsuper)
      (Nesting.solid_cons σ) hbound
    exact ⟨⟨hnodup, hplain, hb⟩, fun hbound => .mk (hb' hbound.2.2)⟩
termination_by structural d'

theorem FunctionDecl.BracedAll.nested {σ : Nesting} {ctx ctx' : Context}
    {ds : List FunctionDecl} (ds' : List FunctionDecl) (hbraced : FunctionDecl.BracedAll ds ds')
    (h : Context.Padded σ ctx ctx') (hds : FunctionDecl.BoundAll D.recorded ctx ds) :
    FunctionDecl.BoundAll .any ctx' ds' ∧
      (FunctionDecl.BoundAll D'.recorded ctx' ds' → FunctionDecl.NestedAll D D' σ ds ds') := by
  cases hbraced with
  | nil => exact ⟨trivial, fun _ => .nil⟩
  | @cons d d' ds ds' hd hds' =>
    have hcontext : methodContext d' = methodContext d := by
      rw [methodContext, methodContext, hd.name_eq]
    obtain ⟨hbound, hnested⟩ := FunctionDecl.Braced.nested d' hd h hds.1
    obtain ⟨hrest, hrest'⟩ := FunctionDecl.BracedAll.nested ds' hds' h hds.2
    rw [← hcontext] at hbound hnested
    exact ⟨⟨hbound, hrest⟩, fun hb => .cons (hnested hb.1) (hrest' hb.2)⟩
termination_by structural ds'

end

end Bound

end ClassScript
