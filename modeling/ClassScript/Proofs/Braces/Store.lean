import ClassScript.Proofs.Braces.Nesting
import ClassScript.Proofs.Store.Growth

/-! # Stores with the scopes of braces

While a program runs with braces and without them, each scope that the one without them creates has
a twin in the other store, with the same names bound to the same values.  The scopes of the braces
have no names, and they stand between the others.  Functions, classes and instances have the same
numbers in both stores.
-/
namespace ClassScript

/-- The twin of each scope. -/
abbrev Twins := Nat → Nat

namespace Twins

variable {ι ι' ι'' : Twins} {s s' t t' u u' : Store} {σ : Nesting} {k k' : Nat}

/-- Both stores get one more scope. -/
def add (ι : Twins) (s s' : Store) : Twins :=
  fun k => if k = s.nextScope then s'.nextScope else ι k

/-- The scopes from `k` outwards and those from `k'` outwards, which are their twins with the scopes
of braces between them. -/
inductive Paired (ι : Twins) (s s' : Store) : Nesting → Nat → Nat → Prop where
  | global : Paired ι s s' [] globalScope globalScope
  | scope {σ : Nesting} {k outer outer' : Nat} (hlink : (s.scope k).enclosing = some outer)
      (hlink' : (s'.scope (ι k)).enclosing = some outer') (h : Paired ι s s' σ outer outer') :
      Paired ι s s' (true :: σ) k (ι k)
  | braces {σ : Nesting} {k k' outer' : Nat} (hlink' : (s'.scope k').enclosing = some outer')
      (h : Paired ι s s' σ k outer') : Paired ι s s' (false :: σ) k k'

/-- From two stores to two later ones. -/
structure Later (ι : Twins) (s s' : Store) (ι' : Twins) (t t' : Store) : Prop where
  size : s.nextScope ≤ t.nextScope
  links : ∀ k outer, (s.scope k).enclosing = some outer → (t.scope k).enclosing = some outer
  links' : ∀ k outer, (s'.scope k).enclosing = some outer → (t'.scope k).enclosing = some outer
  twins : ∀ k, k < s.nextScope → ι' k = ι k

theorem Later.refl (ι : Twins) (s s' : Store) : Later ι s s' ι s s' :=
  ⟨Nat.le_refl _, fun _ _ h => h, fun _ _ h => h, fun _ _ => rfl⟩

theorem Later.trans (h : Later ι s s' ι' t t') (h' : Later ι' t t' ι'' u u') :
    Later ι s s' ι'' u u' where
  size := Nat.le_trans h.size h'.size
  links k outer hk := h'.links k outer (h.links k outer hk)
  links' k outer hk := h'.links' k outer (h.links' k outer hk)
  twins k hk := (h'.twins k (Nat.lt_of_lt_of_le hk h.size)).trans (h.twins k hk)

theorem Later.ofScopes (ι : Twins) (h : t.scopes = s.scopes) (h' : t'.scopes = s'.scopes) :
    Later ι s s' ι t t' where
  size := Nat.le_of_eq (by rw [Store.nextScope, Store.nextScope, h])
  links k outer hk := by rwa [Store.scope, h]
  links' k outer hk := by rwa [Store.scope, h']
  twins _ _ := rfl

theorem Later.define (ι : Twins) (s s' : Store) (k k' : Nat) (name : String) (v : Value) :
    Later ι s s' ι (s.define k name v) (s'.define k' name v) where
  size := by simp
  links j outer hj := by rwa [Store.enclosing_define]
  links' j outer hj := by rwa [Store.enclosing_define]
  twins _ _ := rfl

theorem links_addScope (s : Store) (enclosing : Option Nat) (k outer : Nat)
    (hk : (s.scope k).enclosing = some outer) :
    ((s.addScope enclosing).scope k).enclosing = some outer := by
  rw [Store.scope_addScope, if_neg (Nat.ne_of_lt (Store.lt_of_enclosing hk))]
  exact hk

theorem Later.addScope (ι : Twins) (s s' : Store) (enclosing enclosing' : Option Nat) :
    Later ι s s' (ι.add s s') (s.addScope enclosing) (s'.addScope enclosing') where
  size := by simp
  links := links_addScope s enclosing
  links' := links_addScope s' enclosing'
  twins k hk := if_neg (Nat.ne_of_lt hk)

/-- A scope of braces is made. -/
theorem Later.addBraces (ι : Twins) (s s' : Store) (enclosing' : Option Nat) :
    Later ι s s' ι s (s'.addScope enclosing') where
  size := Nat.le_refl _
  links _ _ h := h
  links' := links_addScope s' enclosing'
  twins _ _ := rfl

theorem Paired.later (h : Paired ι s s' σ k k') (hlater : Later ι s s' ι' t t') :
    Paired ι' t t' σ k k' := by
  induction h with
  | global => exact .global
  | scope hlink hlink' _ ih =>
    have htwin := hlater.twins _ (Store.lt_of_enclosing hlink)
    rw [← htwin] at hlink' ⊢
    exact .scope (hlater.links _ _ hlink) (hlater.links' _ _ hlink') ih
  | braces hlink' _ ih => exact .braces (hlater.links' _ _ hlink') ih

end Twins

open Twins (Later)

variable {D D' : Distances} {ι ι' : Twins} {s s' t t' : Store}

/-- Two closures of twins, one with braces in its code.  The code of a method stands one scope
inside the scope of its closure. -/
structure Closure.Nested (D D' : Distances) (ι : Twins) (s s' : Store) (inner : Nesting)
    (c c' : Closure) : Prop where
  isInitializer : c'.isInitializer = c.isInitializer
  declaration : ∃ σ : Nesting, σ.Solid ∧ ι.Paired s s' σ c.scope c'.scope ∧
    FunctionDecl.Nested D D' (inner ++ σ) c.declaration c'.declaration

theorem Closure.Nested.later {inner : Nesting} {c c' : Closure}
    (h : c.Nested D D' ι s s' inner c') (hlater : Later ι s s' ι' t t') :
    c.Nested D D' ι' t t' inner c' := by
  obtain ⟨σ, hσ, hpaired, hdeclaration⟩ := h.declaration
  exact ⟨h.isInitializer, σ, hσ, hpaired.later hlater, hdeclaration⟩

structure Class.Nested (D D' : Distances) (ι : Twins) (s s' : Store) (c c' : Class) : Prop where
  name : c'.name = c.name
  superclass : c'.superclass = c.superclass
  methods : ∀ name, Option.Rel (Closure.Nested D D' ι s s' [true]) (c.methods.get? name)
    (c'.methods.get? name)

theorem Class.Nested.later {c c' : Class} (h : c.Nested D D' ι s s' c')
    (hlater : Later ι s s' ι' t t') : c.Nested D D' ι' t t' c' := by
  refine ⟨h.name, h.superclass, fun name => ?_⟩
  have hmethods := h.methods name
  generalize c.methods.get? name = method, c'.methods.get? name = method' at hmethods
  cases hmethods with
  | none => exact .none
  | some hclosure => exact .some (hclosure.later hlater)

/-- Scopes with their twins. -/
structure Twins.Hold (ι : Twins) (s s' : Store) : Prop where
  placed : ∀ k, k < s.nextScope → ι k < s'.nextScope
  distinct : ∀ j k, j < s.nextScope → k < s.nextScope → ι j = ι k → j = k
  names : ∀ k name, k < s.nextScope → s'.own? (ι k) name = s.own? k name
  global : ι globalScope = globalScope ∧ globalScope < s.nextScope
  outermost : (s.scope globalScope).enclosing = none ∧ (s'.scope globalScope).enclosing = none

/-- The store of a program without braces and that of the program with them. -/
structure Store.Nested (D D' : Distances) (ι : Twins) (s s' : Store) : Prop where
  scopes : ι.Hold s s'
  nextFunction : s'.nextFunction = s.nextFunction
  functions : ∀ id, (s.closure id).Nested D D' ι s s' [] (s'.closure id)
  nextClass : s'.nextClass = s.nextClass
  classes : ∀ id, (s.classOf id).Nested D D' ι s s' (s'.classOf id)
  natives : s'.natives = s.natives
  objects : s'.objects = s.objects

namespace Twins.Hold

theorem define (h : ι.Hold s s') {k : Nat} (hk : k < s.nextScope) (name : String) (v : Value) :
    ι.Hold (s.define k name v) (s'.define (ι k) name v) where
  placed j hj := by
    rw [Store.nextScope_define] at hj ⊢
    exact h.placed j hj
  distinct i j hi hj := by
    rw [Store.nextScope_define] at hi hj
    exact h.distinct i j hi hj
  names j other hj := by
    rw [Store.nextScope_define] at hj
    rw [Store.own?_define, Store.own?_define]
    by_cases heq : j = k
    · subst heq
      simp only [hk, h.placed j hk, h.names j other hk]
    · rw [if_neg fun hif => heq (h.distinct j k hj hk hif.1), if_neg fun hif => heq hif.1]
      exact h.names j other hj
  global := by simpa using h.global
  outermost := by simpa using h.outermost

theorem addScope (h : ι.Hold s s') (enclosing enclosing' : Option Nat) :
    (ι.add s s').Hold (s.addScope enclosing) (s'.addScope enclosing') := by
  have hplaced {k : Nat} (hk : k < s.nextScope) : ι k ≠ s'.nextScope :=
    Nat.ne_of_lt (h.placed k hk)
  have hglobal := h.placed _ h.global.2
  refine ⟨fun k hk => ?_, fun j k hj hk heq => ?_, fun k name hk => ?_, ?_, ?_⟩
  · rw [Store.nextScope_addScope] at hk ⊢
    unfold Twins.add
    split
    · exact Nat.lt_succ_self _
    · exact Nat.lt_succ_of_lt (h.placed k (by omega))
  · rw [Store.nextScope_addScope] at hj hk
    unfold Twins.add at heq
    split at heq <;> split at heq
    · omega
    · exact absurd heq.symm (hplaced (by omega))
    · exact absurd heq (hplaced (by omega))
    · exact h.distinct j k (by omega) (by omega) heq
  · rw [Store.nextScope_addScope] at hk
    rw [Store.own?_addScope, Store.own?_addScope]
    unfold Twins.add
    split
    next hnew => rw [s.own?_of_le (Nat.le_of_eq hnew.symm), s'.own?_of_le (Nat.le_refl _)]
    next hold => exact h.names k name (by omega)
  · rw [Store.nextScope_addScope]
    exact ⟨(if_neg (Nat.ne_of_lt h.global.2)).trans h.global.1, Nat.lt_succ_of_lt h.global.2⟩
  · rw [h.global.1] at hglobal
    rw [Store.scope_addScope, Store.scope_addScope, if_neg (Nat.ne_of_lt h.global.2),
      if_neg (Nat.ne_of_lt hglobal)]
    exact h.outermost

theorem addBraces (h : ι.Hold s s') (enclosing' : Option Nat) :
    ι.Hold s (s'.addScope enclosing') where
  placed k hk := by
    rw [Store.nextScope_addScope]
    exact Nat.lt_succ_of_lt (h.placed k hk)
  distinct := h.distinct
  names k name hk := by
    rw [Store.own?_addScope]
    exact h.names k name hk
  global := h.global
  outermost := by
    have hglobal := h.placed _ h.global.2
    rw [h.global.1] at hglobal
    rw [Store.scope_addScope, if_neg (Nat.ne_of_lt hglobal)]
    exact h.outermost

theorem ofScopes (h : ι.Hold s s') (hs : t.scopes = s.scopes) (hs' : t'.scopes = s'.scopes) :
    ι.Hold t t' := by
  obtain ⟨scopes, functions, natives, classes, objects⟩ := s
  obtain ⟨scopes', functions', natives', classes', objects'⟩ := s'
  obtain ⟨_, functions, natives, classes, objects⟩ := t
  obtain ⟨_, functions', natives', classes', objects'⟩ := t'
  subst hs hs'
  exact ⟨h.placed, h.distinct, h.names, h.global, h.outermost⟩

/-- Where names may be declared, the two scopes are twins. -/
theorem twin (h : ι.Hold s s') {σ : Nesting} {k k' : Nat} (hpaired : ι.Paired s s' σ k k')
    (hσ : σ.Solid) : k < s.nextScope ∧ k' = ι k := by
  cases hpaired with
  | global => exact ⟨h.global.2, h.global.1.symm⟩
  | scope hlink => exact ⟨Store.lt_of_enclosing hlink, rfl⟩
  | braces => exact absurd rfl hσ

/-- A scope of the program at a distance, and its twin at its place. -/
theorem scopeAt? (h : ι.Hold s s') {σ : Nesting} {k k' : Nat} (hpaired : ι.Paired s s' σ k k')
    (d : Nat) :
    s'.scopeAt? k' (σ.place d) = (s.scopeAt? k d).map ι ∧
      ∀ j, s.scopeAt? k d = some j → j < s.nextScope := by
  induction hpaired generalizing d with
  | global =>
    cases d with
    | zero => simp [Store.scopeAt?, Nesting.place, h.global]
    | succ d => simp [Store.scopeAt?, Nesting.place, h.outermost]
  | scope hlink hlink' _ ih =>
    cases d with
    | zero => simp [Store.scopeAt?, Nesting.place, Store.lt_of_enclosing hlink]
    | succ d => simpa [Store.scopeAt?, Nesting.place, hlink, hlink'] using ih d
  | braces hlink' _ ih => simpa [Store.scopeAt?, Nesting.place, hlink'] using ih d

theorem valueAt? (h : ι.Hold s s') {σ : Nesting} {k k' : Nat} (hpaired : ι.Paired s s' σ k k')
    (d : Nat) (name : String) : s'.valueAt? k' (σ.place d) name = s.valueAt? k d name := by
  obtain ⟨hscope, hknown⟩ := h.scopeAt? hpaired d
  rw [Store.valueAt?, Store.valueAt?, hscope]
  cases hj : s.scopeAt? k d with
  | none => rfl
  | some j => exact h.names j name (hknown j hj)

theorem holderAt? (h : ι.Hold s s') {σ : Nesting} {k k' : Nat} (hpaired : ι.Paired s s' σ k k')
    (d : Nat) (name : String) :
    s'.holderAt? k' (σ.place d) name = (s.holderAt? k d name).map ι ∧
      ∀ j, s.holderAt? k d name = some j → j < s.nextScope := by
  obtain ⟨hscope, hknown⟩ := h.scopeAt? hpaired d
  rw [Store.holderAt?, Store.holderAt?, hscope]
  cases hj : s.scopeAt? k d with
  | none => exact ⟨rfl, fun _ hfound => nomatch hfound⟩
  | some j =>
    have hlt := hknown j hj
    refine ⟨?_, fun i hi => hknown i (hj.trans (Option.filter_eq_some_iff.1 hi).1)⟩
    simp only [Option.map_some, Option.filter_some, h.names j name hlt]
    split <;> rfl

end Twins.Hold

/-- One more scope inside two that are paired. -/
theorem Twins.Paired.addScope {σ : Nesting} {outer outer' : Nat}
    (h : ι.Paired s s' σ outer outer') :
    (ι.add s s').Paired (s.addScope (some outer)) (s'.addScope (some outer')) (true :: σ)
      s.nextScope s'.nextScope := by
  have htwin : ι.add s s' s.nextScope = s'.nextScope := if_pos rfl
  have hlink' := s'.enclosing_addScope_self (some outer')
  have hlater := h.later (.addScope ι s s' (some outer) (some outer'))
  rw [← htwin] at hlink' ⊢
  exact .scope (s.enclosing_addScope_self (some outer)) hlink' hlater

theorem Twins.Paired.addBraces {σ : Nesting} {k outer' : Nat} (h : ι.Paired s s' σ k outer') :
    ι.Paired s (s'.addScope (some outer')) (false :: σ) k s'.nextScope :=
  .braces (s'.enclosing_addScope_self (some outer')) (h.later (.addBraces ι s s' (some outer')))

namespace Store.Nested

theorem nextObject (h : Store.Nested D D' ι s s') : s'.nextObject = s.nextObject := by
  rw [Store.nextObject, Store.nextObject, h.objects]

theorem object (h : Store.Nested D D' ι s s') (id : Nat) : s'.object id = s.object id := by
  rw [Store.object, Store.object, h.objects]

theorem native (h : Store.Nested D D' ι s s') (id : Nat) : s'.native id = s.native id := by
  rw [Store.native, Store.native, h.natives]

/-- Only scopes have changed. -/
theorem withScopes (h : Store.Nested D D' ι s s') {scopes scopes' : Array Scope}
    (hlater : Later ι s s' ι' { s with scopes } { s' with scopes := scopes' })
    (hscopes : ι'.Hold { s with scopes } { s' with scopes := scopes' }) :
    Store.Nested D D' ι' { s with scopes } { s' with scopes := scopes' } :=
  ⟨hscopes, h.nextFunction, fun id => (h.functions id).later hlater, h.nextClass,
    fun id => (h.classes id).later hlater, h.natives, h.objects⟩

theorem define (h : Store.Nested D D' ι s s') {k : Nat} (hk : k < s.nextScope) (name : String)
    (v : Value) : Store.Nested D D' ι (s.define k name v) (s'.define (ι k) name v) :=
  h.withScopes (.define ι s s' k (ι k) name v) (h.scopes.define hk name v)

theorem addScope (h : Store.Nested D D' ι s s') (enclosing enclosing' : Option Nat) :
    Store.Nested D D' (ι.add s s') (s.addScope enclosing) (s'.addScope enclosing') :=
  h.withScopes (.addScope ι s s' enclosing enclosing') (h.scopes.addScope enclosing enclosing')

theorem addBraces (h : Store.Nested D D' ι s s') (enclosing' : Option Nat) :
    Store.Nested D D' ι s (s'.addScope enclosing') :=
  h.withScopes (.addBraces ι s s' enclosing') (h.scopes.addBraces enclosing')

/-- Only objects have changed, and in the same way. -/
theorem withObjects (h : Store.Nested D D' ι s s') (objects : Array Object) :
    Store.Nested D D' ι { s with objects } { s' with objects } := by
  have hlater : Later ι s s' ι { s with objects } { s' with objects } := .ofScopes ι rfl rfl
  exact ⟨h.scopes.ofScopes rfl rfl, h.nextFunction, fun id => (h.functions id).later hlater,
    h.nextClass, fun id => (h.classes id).later hlater, h.natives, rfl⟩

theorem addFunction (h : Store.Nested D D' ι s s') {c c' : Closure}
    (hc : c.Nested D D' ι s s' [] c') :
    Store.Nested D D' ι (s.addFunction c) (s'.addFunction c') := by
  have hlater : Later ι s s' ι (s.addFunction c) (s'.addFunction c') := .ofScopes ι rfl rfl
  refine ⟨h.scopes.ofScopes rfl rfl, ?_, fun id => ?_, h.nextClass,
    fun id => (h.classes id).later hlater, h.natives, h.objects⟩
  · rw [Store.nextFunction_addFunction, Store.nextFunction_addFunction, h.nextFunction]
  · rw [Store.closure_addFunction, Store.closure_addFunction, h.nextFunction]
    split
    · exact hc.later hlater
    · exact (h.functions id).later hlater

theorem addClass (h : Store.Nested D D' ι s s') {c c' : Class} (hc : c.Nested D D' ι s s' c') :
    Store.Nested D D' ι (s.addClass c) (s'.addClass c') := by
  have hlater : Later ι s s' ι (s.addClass c) (s'.addClass c') := .ofScopes ι rfl rfl
  refine ⟨h.scopes.ofScopes rfl rfl, h.nextFunction, fun id => (h.functions id).later hlater, ?_,
    fun id => ?_, h.natives, h.objects⟩
  · rw [Store.nextClass_addClass, Store.nextClass_addClass, h.nextClass]
  · rw [Store.classOf_addClass, Store.classOf_addClass, h.nextClass]
    split
    · exact hc.later hlater
    · exact (h.classes id).later hlater

/-! ### Looking things up -/

theorem method? (h : Store.Nested D D' ι s s') (cls : Nat) (name : String) :
    Option.Rel (Closure.Nested D D' ι s s' [true]) (s.method? cls name) (s'.method? cls name) := by
  have hwithin (n cls : Nat) : Option.Rel (Closure.Nested D D' ι s s' [true])
      (s.methodWithin? name n cls) (s'.methodWithin? name n cls) := by
    induction n generalizing cls with
    | zero => exact .none
    | succ n ih =>
      have hmethods := (h.classes cls).methods name
      rw [Store.methodWithin?, Store.methodWithin?, (h.classes cls).superclass]
      generalize (s.classOf cls).methods.get? name = method,
        (s'.classOf cls).methods.get? name = method' at hmethods
      cases hmethods with
      | some hclosure => exact .some hclosure
      | none =>
        cases (s.classOf cls).superclass with
        | none => exact .none
        | some superclass => exact ih superclass
  exact hwithin _ _

end Store.Nested

theorem FunctionDecl.Nested.same {σ : Nesting} {d d' : FunctionDecl}
    (h : FunctionDecl.Nested D D' σ d d') : d'.name = d.name ∧ d'.parameters = d.parameters := by
  cases h
  exact ⟨rfl, rfl⟩

theorem Closure.Nested.same {inner : Nesting} {c c' : Closure}
    (h : c.Nested D D' ι s s' inner c') :
    c'.declaration.name = c.declaration.name ∧
      c'.declaration.arity = c.declaration.arity := by
  obtain ⟨σ, -, -, hdeclaration⟩ := h.declaration
  obtain ⟨hname, hparameters⟩ := hdeclaration.same
  exact ⟨hname, congrArg List.length hparameters⟩

namespace Store.Nested

theorem classArity (h : Store.Nested D D' ι s s') (cls : Nat) :
    s'.classArity cls = s.classArity cls := by
  have hmethod := h.method? cls initializerName
  rw [Store.classArity, Store.classArity]
  generalize s.method? cls initializerName = method,
    s'.method? cls initializerName = method' at hmethod
  cases hmethod with
  | none => rfl
  | some hclosure => exact hclosure.same.2

theorem textMethod? (h : Store.Nested D D' ι s s') (id : Nat) :
    Option.Rel (Closure.Nested D D' ι s s' [true]) (s.textMethod? id) (s'.textMethod? id) := by
  have hmethod := h.method? (s.object id).cls textMethodName
  rw [Store.textMethod?, Store.textMethod?, h.object]
  generalize s.method? (s.object id).cls textMethodName = method,
    s'.method? (s.object id).cls textMethodName = method' at hmethod
  cases hmethod with
  | none => exact .none
  | some hclosure =>
    simp only [Option.filter, hclosure.same.2]
    split
    · exact .some hclosure
    · exact .none

theorem text (h : Store.Nested D D' ι s s') (v : Value) : s'.text v = s.text v := by
  cases v with
  | function id => simp only [Store.text, (h.functions id).same.1]
  | cls id => simp only [Store.text, (h.classes id).name]
  | object id => simp only [Store.text, h.object, (h.classes (s.object id).cls).name]
  | bool b => cases b <;> rfl
  | _ => rfl

end Store.Nested

end ClassScript
