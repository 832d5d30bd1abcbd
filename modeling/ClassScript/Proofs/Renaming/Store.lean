import ClassScript.Proofs.Renaming.Analysis
import ClassScript.Proofs.Store.Chain

/-! # Stores that are alike

While two programs that are alike run, each scope that one of them creates has a counterpart with
the same number.  A tag says of every scope whether it came from a chosen one; in such a scope the
old name is bound under the new one.  Functions and classes have the same numbers, and their code is
alike.
-/
namespace ClassScript

/-- Which scopes of a store came from chosen ones. -/
abbrev Tags := Nat → Bool

/-- The tag of one more scope. -/
def Tags.add (T : Tags) (s : Store) (chosen : Bool) : Tags :=
  fun k => if k = s.nextScope then chosen else T k

namespace Store

variable {ρ : Renaming} {T T' T'' : Tags} {s s' s'' t t' : Store} {marks : List Bool} {k : Nat}

/-- The tags of the scopes from `k` outwards are the given marks. -/
def Marked (T : Tags) (s : Store) (marks : List Bool) (k : Nat) : Prop :=
  Chain (fun chosen k => k < s.nextScope ∧ T k = chosen) s marks k

/-- From a store with tags to a later one. -/
structure Later (T : Tags) (s : Store) (T' : Tags) (s' : Store) : Prop where
  size : s.nextScope ≤ s'.nextScope
  links : ∀ k outer, (s.scope k).enclosing = some outer → (s'.scope k).enclosing = some outer
  tags : ∀ k, k < s.nextScope → T' k = T k

theorem Later.refl (T : Tags) (s : Store) : Later T s T s :=
  ⟨Nat.le_refl _, fun _ _ h => h, fun _ _ => rfl⟩

theorem Later.trans (h : Later T s T' s') (h' : Later T' s' T'' s'') : Later T s T'' s'' where
  size := Nat.le_trans h.size h'.size
  links k outer hk := h'.links k outer (h.links k outer hk)
  tags k hk := (h'.tags k (Nat.lt_of_lt_of_le hk h.size)).trans (h.tags k hk)

theorem Later.ofScopes (T : Tags) (h : s'.scopes = s.scopes) : Later T s T s' where
  size := Nat.le_of_eq (by rw [nextScope, nextScope, h])
  links k outer hk := by rwa [scope, h]
  tags _ _ := rfl

theorem Later.define (T : Tags) (s : Store) (k : Nat) (name : String) (v : Value) :
    Later T s T (s.define k name v) where
  size := by simp
  links j outer hj := by rwa [enclosing_define]
  tags _ _ := rfl

theorem Later.addScope (T : Tags) (s : Store) (enclosing : Option Nat) (chosen : Bool) :
    Later T s (T.add s chosen) (s.addScope enclosing) where
  size := by simp
  links k outer hk := by
    rw [scope_addScope, if_neg (Nat.ne_of_lt (lt_of_enclosing hk))]
    exact hk
  tags k hk := if_neg (Nat.ne_of_lt hk)

theorem Marked.later (h : Marked T s marks k) (hlater : Later T s T' s') : Marked T' s' marks k :=
  Chain.mono
    (fun _ j hj => ⟨Nat.lt_of_lt_of_le hj.1 hlater.size, (hlater.tags j hj.1).trans hj.2⟩)
    hlater.links h

end Store

open Store (Marked Later)

variable {ρ : Renaming} {T T' : Tags} {s s' t t' : Store}

/-- Two closures of the same scope whose code is alike.  The code of a method stands one scope
inside the scope of its closure. -/
structure Closure.Alike (ρ : Renaming) (T : Tags) (s : Store) (inner : List Bool)
    (c c' : Closure) : Prop where
  scope : c'.scope = c.scope
  isInitializer : c'.isInitializer = c.isInitializer
  declaration : ∃ marks, Marked T s marks c.scope ∧
    FunctionDecl.Alike ρ (inner ++ marks) c.declaration c'.declaration

theorem Closure.Alike.later {inner : List Bool} {c c' : Closure} (h : c.Alike ρ T s inner c')
    (hlater : Later T s T' s') : c.Alike ρ T' s' inner c' := by
  obtain ⟨marks, hmarked, hdeclaration⟩ := h.declaration
  exact ⟨h.scope, h.isInitializer, marks, hmarked.later hlater, hdeclaration⟩

structure Class.Alike (ρ : Renaming) (T : Tags) (s : Store) (c c' : Class) : Prop where
  name : c'.name = c.name
  superclass : c'.superclass = c.superclass
  methods : ∀ name, Option.Rel (Closure.Alike ρ T s [false]) (c.methods.get? name)
    (c'.methods.get? name)

theorem Class.Alike.later {c c' : Class} (h : c.Alike ρ T s c') (hlater : Later T s T' s') :
    c.Alike ρ T' s' c' := by
  refine ⟨h.name, h.superclass, fun name => ?_⟩
  have hmethods := h.methods name
  generalize c.methods.get? name = method, c'.methods.get? name = method' at hmethods
  cases hmethods with
  | none => exact .none
  | some hclosure => exact .some (hclosure.later hlater)

/-- Two stores that are alike, with the tags of their scopes. -/
structure Store.Alike (ρ : Renaming) (T : Tags) (s s' : Store) : Prop where
  nextScope : s'.nextScope = s.nextScope
  enclosing : ∀ k, (s'.scope k).enclosing = (s.scope k).enclosing
  names : ∀ k name, name ≠ ρ.new → s'.own? k (ρ.name (T k) name) = s.own? k name
  nextFunction : s'.nextFunction = s.nextFunction
  functions : ∀ id, (s.closure id).Alike ρ T s [] (s'.closure id)
  nextClass : s'.nextClass = s.nextClass
  classes : ∀ id, (s.classOf id).Alike ρ T s (s'.classOf id)
  natives : s'.natives = s.natives
  objects : s'.objects = s.objects
  global : T globalScope = false ∧ globalScope < s.nextScope ∧
    (s.scope globalScope).enclosing = none

namespace Store.Alike

theorem nextObject (h : Store.Alike ρ T s s') : s'.nextObject = s.nextObject := by
  rw [Store.nextObject, Store.nextObject, h.objects]

theorem object (h : Store.Alike ρ T s s') (id : Nat) : s'.object id = s.object id := by
  rw [Store.object, Store.object, h.objects]

theorem native (h : Store.Alike ρ T s s') (id : Nat) : s'.native id = s.native id := by
  rw [Store.native, Store.native, h.natives]

/-- Code and objects are what they were, and the scopes are alike. -/
theorem keep (h : Store.Alike ρ T s s') (hlater : Later T s T' t)
    (hfunctions : t.functions = s.functions) (hfunctions' : t'.functions = s'.functions)
    (hclasses : t.classes = s.classes) (hclasses' : t'.classes = s'.classes)
    (hnatives : t.natives = s.natives) (hnatives' : t'.natives = s'.natives)
    (hobjects : t'.objects = t.objects) (hnextScope : t'.nextScope = t.nextScope)
    (henclosing : ∀ k, (t'.scope k).enclosing = (t.scope k).enclosing)
    (hnames : ∀ k name, name ≠ ρ.new → t'.own? k (ρ.name (T' k) name) = t.own? k name)
    (hglobal : (t.scope globalScope).enclosing = none) : Store.Alike ρ T' t t' where
  nextScope := hnextScope
  enclosing := henclosing
  names := hnames
  nextFunction := by
    rw [Store.nextFunction, Store.nextFunction, hfunctions, hfunctions']
    exact h.nextFunction
  functions id := by
    rw [Store.closure, Store.closure, hfunctions, hfunctions']
    exact (h.functions id).later hlater
  nextClass := by
    rw [Store.nextClass, Store.nextClass, hclasses, hclasses']
    exact h.nextClass
  classes id := by
    rw [Store.classOf, Store.classOf, hclasses, hclasses']
    exact (h.classes id).later hlater
  natives := by rw [hnatives, hnatives', h.natives]
  objects := hobjects
  global := ⟨(hlater.tags _ h.global.2.1).trans h.global.1,
    Nat.lt_of_lt_of_le h.global.2.1 hlater.size, hglobal⟩

theorem define (h : Store.Alike ρ T s s') (k : Nat) {name : String} (hname : name ≠ ρ.new)
    (v : Value) : Store.Alike ρ T (s.define k name v) (s'.define k (ρ.name (T k) name) v) := by
  refine h.keep (.define T s k name v) rfl rfl rfl rfl rfl rfl h.objects ?_ ?_ ?_ ?_
  · rw [Store.nextScope_define, Store.nextScope_define, h.nextScope]
  · intro j
    rw [Store.enclosing_define, Store.enclosing_define, h.enclosing]
  · intro j other hother
    rw [Store.own?_define, Store.own?_define, h.nextScope]
    by_cases hj : j = k ∧ k < s.nextScope ∧ other = name
    · obtain ⟨rfl, hlt, rfl⟩ := hj
      rw [if_pos ⟨rfl, hlt, rfl⟩, if_pos ⟨rfl, hlt, rfl⟩]
    · rw [if_neg hj, if_neg ?_]
      · exact h.names j other hother
      · rintro ⟨rfl, hlt, heq⟩
        exact hj ⟨rfl, hlt, Renaming.name_injective hother hname heq⟩
  · rw [Store.enclosing_define]
    exact h.global.2.2

theorem addScope (h : Store.Alike ρ T s s') (enclosing : Option Nat) (chosen : Bool) :
    Store.Alike ρ (T.add s chosen) (s.addScope enclosing) (s'.addScope enclosing) := by
  refine h.keep (.addScope T s enclosing chosen) rfl rfl rfl rfl rfl rfl h.objects ?_ ?_ ?_ ?_
  · rw [Store.nextScope_addScope, Store.nextScope_addScope, h.nextScope]
  · intro k
    rw [Store.scope_addScope, Store.scope_addScope, h.nextScope]
    split
    · rfl
    · exact h.enclosing k
  · intro k name hname
    rw [Store.own?_addScope, Store.own?_addScope, Tags.add]
    split
    next hk =>
      rw [Store.own?, Store.own?, s.scope_of_le (Nat.le_of_eq hk.symm),
        s'.scope_of_le (Nat.le_of_eq (h.nextScope.trans hk.symm))]
      rfl
    next => exact h.names k name hname
  · rw [Store.scope_addScope, if_neg (Nat.ne_of_lt h.global.2.1)]
    exact h.global.2.2

/-- Only objects have changed, and in the same way. -/
theorem withObjects (h : Store.Alike ρ T s s') (objects : Array Object) :
    Store.Alike ρ T { s with objects } { s' with objects } :=
  h.keep (.ofScopes T rfl) rfl rfl rfl rfl rfl rfl rfl h.nextScope h.enclosing h.names h.global.2.2

theorem addFunction (h : Store.Alike ρ T s s') {c c' : Closure} (hc : c.Alike ρ T s [] c') :
    Store.Alike ρ T (s.addFunction c) (s'.addFunction c') := by
  have hlater : Later T s T (s.addFunction c) := .ofScopes T rfl
  refine ⟨h.nextScope, h.enclosing, h.names, ?_, fun id => ?_, h.nextClass,
    fun id => (h.classes id).later hlater, h.natives, h.objects, h.global⟩
  · rw [Store.nextFunction_addFunction, Store.nextFunction_addFunction, h.nextFunction]
  · rw [Store.closure_addFunction, Store.closure_addFunction, h.nextFunction]
    split
    · exact hc.later hlater
    · exact (h.functions id).later hlater

theorem addClass (h : Store.Alike ρ T s s') {c c' : Class} (hc : c.Alike ρ T s c') :
    Store.Alike ρ T (s.addClass c) (s'.addClass c') := by
  have hlater : Later T s T (s.addClass c) := .ofScopes T rfl
  refine ⟨h.nextScope, h.enclosing, h.names, h.nextFunction,
    fun id => (h.functions id).later hlater, ?_, fun id => ?_, h.natives, h.objects, h.global⟩
  · rw [Store.nextClass_addClass, Store.nextClass_addClass, h.nextClass]
  · rw [Store.classOf_addClass, Store.classOf_addClass, h.nextClass]
    split
    · exact hc.later hlater
    · exact (h.classes id).later hlater

/-! ### Looking things up -/

theorem scopeAt? (h : Store.Alike ρ T s s') (k d : Nat) : s'.scopeAt? k d = s.scopeAt? k d := by
  induction d generalizing k with
  | zero => rfl
  | succ d ih =>
    have hnext : (fun outer => s'.scopeAt? outer d) = fun outer => s.scopeAt? outer d := funext ih
    rw [Store.scopeAt?, Store.scopeAt?, h.enclosing, hnext]

/-- A name that is looked up where the tag is known. -/
theorem valueAt? (h : Store.Alike ρ T s s') {name : String} (hname : name ≠ ρ.new) (k d : Nat)
    {chosen : Bool} (hchosen : ∀ j, s.scopeAt? k d = some j → T j = chosen) :
    s'.valueAt? k d (ρ.name chosen name) = s.valueAt? k d name := by
  rw [Store.valueAt?, Store.valueAt?, h.scopeAt?]
  cases hj : s.scopeAt? k d with
  | none => rfl
  | some j =>
    obtain rfl := hchosen j hj
    exact h.names j name hname

theorem holderAt? (h : Store.Alike ρ T s s') {name : String} (hname : name ≠ ρ.new) (k d : Nat)
    {chosen : Bool} (hchosen : ∀ j, s.scopeAt? k d = some j → T j = chosen) :
    s'.holderAt? k d (ρ.name chosen name) = s.holderAt? k d name := by
  rw [Store.holderAt?, Store.holderAt?, h.scopeAt?]
  cases hj : s.scopeAt? k d with
  | none => rfl
  | some j =>
    obtain rfl := hchosen j hj
    simp only [Option.filter, h.names j name hname]

theorem method? (h : Store.Alike ρ T s s') (cls : Nat) (name : String) :
    Option.Rel (Closure.Alike ρ T s [false]) (s.method? cls name) (s'.method? cls name) := by
  have hwithin (n cls : Nat) : Option.Rel (Closure.Alike ρ T s [false])
      (s.methodWithin? name n cls) (s'.methodWithin? name n cls) := by
    induction n generalizing cls with
    | zero => exact .none
    | succ n ih =>
      have hmethods := (h.classes cls).methods name
      rw [Store.methodWithin?, Store.methodWithin?, (h.classes cls).superclass]
      generalize (s.classOf cls).methods.get? name = method,
        (s'.classOf cls).methods.get? name = method' at hmethods
      cases hmethods with
      | some hclosure => exact .some hclosure
      | none =>
        cases (s.classOf cls).superclass with
        | none => exact .none
        | some superclass => exact ih superclass
  exact hwithin _ _

theorem classArity (h : Store.Alike ρ T s s') (cls : Nat) :
    s'.classArity cls = s.classArity cls := by
  have hmethod := h.method? cls initializerName
  rw [Store.classArity, Store.classArity]
  generalize s.method? cls initializerName = method,
    s'.method? cls initializerName = method' at hmethod
  cases hmethod with
  | none => rfl
  | some hclosure =>
    obtain ⟨marks, -, hdeclaration⟩ := hclosure.declaration
    exact hdeclaration.arity_eq

theorem textMethod? (h : Store.Alike ρ T s s') (id : Nat) :
    Option.Rel (Closure.Alike ρ T s [false]) (s.textMethod? id) (s'.textMethod? id) := by
  have hmethod := h.method? (s.object id).cls textMethodName
  rw [Store.textMethod?, Store.textMethod?, h.object]
  generalize s.method? (s.object id).cls textMethodName = method,
    s'.method? (s.object id).cls textMethodName = method' at hmethod
  cases hmethod with
  | none => exact .none
  | @some c c' hclosure =>
    obtain ⟨marks, -, hdeclaration⟩ := hclosure.declaration
    simp only [Option.filter, hdeclaration.arity_eq]
    split
    · exact .some hclosure
    · exact .none

theorem text (h : Store.Alike ρ T s s') (v : Value) : s'.text v = s.text v := by
  cases v with
  | function id =>
    obtain ⟨marks, -, hdeclaration⟩ := (h.functions id).declaration
    simp only [Store.text, hdeclaration.name_eq]
  | cls id => simp only [Store.text, (h.classes id).name]
  | object id => simp only [Store.text, h.object, (h.classes (s.object id).cls).name]
  | bool b => cases b <;> rfl
  | _ => rfl

end Store.Alike

/-- The tag of the scope at a distance is its mark. -/
theorem Store.Marked.target {marks : List Bool} {k : Nat} (h : Marked T s marks k)
    (hglobal : T globalScope = false ∧ (s.scope globalScope).enclosing = none) (d j : Nat)
    (hj : s.scopeAt? k d = some j) : T j = (marks[d]?).getD false := by
  induction marks generalizing k d with
  | nil =>
    obtain rfl : k = globalScope := h
    cases d with
    | zero =>
      obtain rfl : globalScope = j := by simpa [Store.scopeAt?] using hj
      exact hglobal.1
    | succ d => simp [Store.scopeAt?, hglobal.2] at hj
  | cons chosen marks ih =>
    obtain ⟨-, hchosen, outer, houter, hchain⟩ := h
    cases d with
    | zero =>
      obtain rfl : k = j := by simpa [Store.scopeAt?] using hj
      exact hchosen.2
    | succ d =>
      have hj' : s.scopeAt? outer d = some j := by simpa [Store.scopeAt?, houter] using hj
      exact ih hchain d hj'

end ClassScript
