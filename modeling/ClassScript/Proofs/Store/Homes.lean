import ClassScript.Proofs.Store.Chain

/-! # Homes of code

A record of where the scopes and functions of a store come from: the class whose declaration has the
method that they are part of, and the instance that the method was looked up on.  The record says
nothing about links and names.  That the two agree is `Homes.Describes`: a scope that binds `this`
binds it to the instance at home, the scope around it has the superclass of the class at home, and
every other scope is at home where the scope around it is.
-/
namespace ClassScript

/-- Where the code of a method belongs. -/
structure Home where
  /-- The class that declares the method. -/
  cls : Nat
  /-- The instance that the method was looked up on. -/
  object : Nat
deriving DecidableEq

/-- The homes of scopes and functions, and the superclasses that classes were declared with.  Code
outside of methods has no home. -/
structure Homes where
  scopes : Nat → Option Home
  functions : Nat → Option Home
  superclass : Nat → Option Nat

namespace Store

variable {s s' : Store}

/-- The nearest class that has a method itself, among the first `n` of a chain. -/
def declarerWithin? (s : Store) (name : String) : Nat → Nat → Option Nat
  | 0, _ => none
  | n + 1, id =>
    if (s.classOf id).methods.contains name then some id
    else (s.classOf id).superclass.bind fun superclass => s.declarerWithin? name n superclass

/-- The class from which a class has the method of a name. -/
def declarer? (s : Store) (cls : Nat) (name : String) : Option Nat :=
  s.declarerWithin? name (cls + 1) cls

/-- A method that is found is one of the class that declares it. -/
theorem declarer?_of_method? {cls : Nat} {name : String} {c : Closure}
    (h : s.method? cls name = some c) :
    ∃ declarer, s.declarer? cls name = some declarer ∧
      (s.classOf declarer).methods.get? name = some c := by
  have hwithin (n cls : Nat) (h : s.methodWithin? name n cls = some c) :
      ∃ declarer, s.declarerWithin? name n cls = some declarer ∧
        (s.classOf declarer).methods.get? name = some c := by
    induction n generalizing cls with
    | zero => cases h
    | succ n ih =>
      rw [methodWithin?] at h
      rw [declarerWithin?, Bindings.contains]
      split at h
      next method hmethod =>
        obtain rfl : method = c := by simpa using h
        exact ⟨cls, by simp [hmethod], hmethod⟩
      next hnone =>
        obtain ⟨superclass, hsuperclass, hinherited⟩ := Option.bind_eq_some_iff.1 h
        simpa [hnone, hsuperclass] using ih superclass hinherited
  exact hwithin _ _ h

theorem scopeAt?_add_one {k d j : Nat} (h : s.scopeAt? k d = some j) :
    s.scopeAt? k (d + 1) = (s.scope j).enclosing := by
  induction d generalizing k with
  | zero =>
    obtain rfl : k = j := by simpa [scopeAt?] using h
    simp [scopeAt?]
  | succ d ih =>
    obtain ⟨outer, houter, hj⟩ := Option.bind_eq_some_iff.1 h
    rw [scopeAt?, houter]
    exact ih hj

/-- A scope that exists and has neither `this` nor `super`. -/
def Bare (s : Store) (k : Nat) : Prop :=
  k < s.nextScope ∧ ∀ name, IsImplicit name → s.own? k name = none

theorem Bare.grow {k : Nat} (h : s.Bare k) (hgrows : Grows s s') : s'.Bare k :=
  ⟨Nat.lt_of_lt_of_le h.1 hgrows.size, fun name hname =>
    (hgrows.implicit k name hname h.1).trans (h.2 name hname)⟩

end Store

namespace Homes

open Store (Grows)

variable {g g' : Homes} {s s' : Store}

/-- No code has been run. -/
def initial : Homes := ⟨fun _ => none, fun _ => none, fun _ => none⟩

/-- Methods of the class at home close over this scope: it has the superclass of that class, or no
`super` if there is none. -/
structure Surrounds (g : Homes) (s : Store) (cls k : Nat) : Prop where
  declared : cls < s.nextClass
  known : k < s.nextScope
  super : s.own? k "super" = (g.superclass cls).map Value.cls

theorem Surrounds.grow {cls k : Nat} (h : g.Surrounds s cls k) (hgrows : Grows s s')
    (hclasses : s.nextClass ≤ s'.nextClass) : g.Surrounds s' cls k where
  declared := Nat.lt_of_lt_of_le h.declared hclasses
  known := Nat.lt_of_lt_of_le h.known hgrows.size
  super := (hgrows.implicit k _ (.inr rfl) h.known).trans h.super

/-- What the record says about a scope is so. -/
structure Suits (g : Homes) (s : Store) (k : Nat) : Prop where
  this : ∀ v, s.own? k "this" = some v → ∃ home outer, g.scopes k = some home ∧
    v = .object home.object ∧ (s.scope k).enclosing = some outer ∧ g.Surrounds s home.cls outer
  inner : ∀ outer, (s.scope k).enclosing = some outer → outer < s.nextScope ∧
    (s.own? k "this" = none → g.scopes k = g.scopes outer)

theorem Suits.grow {k : Nat} (h : g.Suits s k) (hk : k < s.nextScope) (hgrows : Grows s s')
    (hclasses : s.nextClass ≤ s'.nextClass) : g.Suits s' k where
  this v hv := by
    rw [hgrows.implicit k _ (.inl rfl) hk] at hv
    obtain ⟨home, outer, hhome, hobject, hlink, hsurrounds⟩ := h.this v hv
    exact ⟨home, outer, hhome, hobject, hgrows.link hlink, hsurrounds.grow hgrows hclasses⟩
  inner outer houter := by
    rw [hgrows.enclosing k hk] at houter
    obtain ⟨hlt, hsame⟩ := h.inner outer houter
    rw [hgrows.implicit k _ (.inl rfl) hk]
    exact ⟨Nat.lt_of_lt_of_le hlt hgrows.size, hsame⟩

/-- The record agrees with the store.  A function is at home where its scope is, whether a statement
declared it there or it is a method that was looked up. -/
structure Describes (g : Homes) (s : Store) : Prop where
  scopes : ∀ k, k < s.nextScope → g.Suits s k
  functions : ∀ id, id < s.nextFunction → (s.closure id).scope < s.nextScope ∧
    g.functions id = g.scopes (s.closure id).scope
  methods : ∀ cls name c, (name, c) ∈ (s.classOf cls).methods.entries →
    g.Surrounds s cls c.scope
  superclass : ∀ cls, cls < s.nextClass → g.superclass cls = (s.classOf cls).superclass
  global : s.Bare globalScope ∧ g.scopes globalScope = none

namespace Describes

/-- A method that is found is that of a class in whose surroundings it closes over its scope. -/
theorem method (h : g.Describes s) {cls : Nat} {name : String} {c : Closure}
    (hc : s.method? cls name = some c) :
    ∃ declarer, s.declarer? cls name = some declarer ∧ g.Surrounds s declarer c.scope := by
  obtain ⟨declarer, hdeclarer, hget⟩ := Store.declarer?_of_method? hc
  exact ⟨declarer, hdeclarer, h.methods declarer name c (Bindings.mem_of_get? hget)⟩

/-- Records that agree on all that exists. -/
theorem congr (h : g.Describes s) (hscopes : ∀ k, k < s.nextScope → g'.scopes k = g.scopes k)
    (hfunctions : ∀ id, id < s.nextFunction → g'.functions id = g.functions id)
    (hsuperclass : ∀ cls, cls < s.nextClass → g'.superclass cls = g.superclass cls) :
    g'.Describes s := by
  have hsurrounds {cls k : Nat} (h : g.Surrounds s cls k) : g'.Surrounds s cls k :=
    ⟨h.declared, h.known, by rw [hsuperclass cls h.declared, h.super]⟩
  refine ⟨fun k hk => ⟨fun v hv => ?_, fun outer houter => ?_⟩, fun id hid => ?_,
    fun cls name c hc => hsurrounds (h.methods cls name c hc), fun cls hcls => ?_, h.global.1, ?_⟩
  · obtain ⟨home, outer, hhome, hobject, hlink, hsuper⟩ := (h.scopes k hk).this v hv
    exact ⟨home, outer, by rw [hscopes k hk, hhome], hobject, hlink, hsurrounds hsuper⟩
  · obtain ⟨hlt, hsame⟩ := (h.scopes k hk).inner outer houter
    exact ⟨hlt, fun hnone => by rw [hscopes k hk, hscopes outer hlt, hsame hnone]⟩
  · obtain ⟨hlt, hsame⟩ := h.functions id hid
    exact ⟨hlt, by rw [hfunctions id hid, hscopes _ hlt, hsame]⟩
  · rw [hsuperclass cls hcls, h.superclass cls hcls]
  · rw [hscopes _ h.global.1.1, h.global.2]

/-- The store has grown by scopes that the record is right about. -/
theorem grow (h : g.Describes s) (hgrows : Grows s s') (hfunctions : s'.functions = s.functions)
    (hclasses : s'.classes = s.classes)
    (hnew : ∀ k, s.nextScope ≤ k → k < s'.nextScope → g.Suits s' k) : g.Describes s' := by
  have hsize : s'.nextClass = s.nextClass := by rw [Store.nextClass, Store.nextClass, hclasses]
  have hclass (cls : Nat) : s'.classOf cls = s.classOf cls := by
    rw [Store.classOf, Store.classOf, hclasses]
  refine ⟨fun k hk => ?_, fun id hid => ?_, fun cls name c hc => ?_, fun cls hcls => ?_,
    h.global.1.grow hgrows, h.global.2⟩
  · rcases Nat.lt_or_ge k s.nextScope with hlt | hle
    · exact (h.scopes k hlt).grow hlt hgrows (Nat.le_of_eq hsize.symm)
    · exact hnew k hle hk
  · rw [Store.nextFunction, hfunctions] at hid
    obtain ⟨hlt, hsame⟩ := h.functions id hid
    rw [Store.closure, hfunctions]
    exact ⟨Nat.lt_of_lt_of_le hlt hgrows.size, hsame⟩
  · rw [hclass] at hc
    exact (h.methods cls name c hc).grow hgrows (Nat.le_of_eq hsize.symm)
  · rw [hsize] at hcls
    rw [hclass, h.superclass cls hcls]

/-- No new scopes. -/
theorem keep (h : g.Describes s) (hgrows : Grows s s') (hsize : s'.nextScope = s.nextScope)
    (hfunctions : s'.functions = s.functions) (hclasses : s'.classes = s.classes) :
    g.Describes s' :=
  h.grow hgrows hfunctions hclasses fun _ hle hlt => absurd (hsize ▸ hlt) (Nat.not_lt.2 hle)

/-- One new scope. -/
theorem growOne (h : g.Describes s) (hgrows : Grows s s')
    (hsize : s'.nextScope = s.nextScope + 1) (hfunctions : s'.functions = s.functions)
    (hclasses : s'.classes = s.classes) (hnew : g.Suits s' s.nextScope) : g.Describes s' := by
  refine h.grow hgrows hfunctions hclasses fun k hle hlt => ?_
  obtain rfl : k = s.nextScope := by omega
  exact hnew

/-- A scope without `this` is at home where the scope around it is. -/
theorem addScope (h : g.Describes s) {outer : Nat} (houter : outer < s.nextScope)
    (hnew : g.scopes s.nextScope = g.scopes outer) : g.Describes (s.addScope (some outer)) := by
  refine h.growOne (.addScope s _) (by simp) rfl rfl ⟨fun v hv => ?_, fun k hk => ?_⟩
  · rw [Store.own?_addScope, s.own?_of_le (Nat.le_refl _)] at hv
    cases hv
  · obtain rfl : outer = k := by simpa [Store.enclosing_addScope_self] using hk
    exact ⟨by simp; omega, fun _ => hnew⟩

theorem addSuper (h : g.Describes s) {outer : Nat} (houter : outer < s.nextScope)
    (hnew : g.scopes s.nextScope = g.scopes outer) (v : Value) :
    g.Describes ((s.addScope (some outer)).define s.nextScope "super" v) := by
  refine h.growOne (.addDefine s _ _ v) (by simp) rfl rfl ⟨fun w hw => ?_, fun k hk => ?_⟩
  · simp [Store.own?_define, Store.own?_addScope, s.own?_of_le] at hw
  · obtain rfl : outer = k := by simpa [Store.enclosing_addScope_self] using hk
    exact ⟨by simp; omega, fun _ => hnew⟩

/-- A scope with `this` is at home at the instance and at a class with these surroundings. -/
theorem addThis (h : g.Describes s) {home : Home} {outer : Nat}
    (houter : g.Surrounds s home.cls outer) (hnew : g.scopes s.nextScope = some home) :
    g.Describes ((s.addScope (some outer)).define s.nextScope "this" (.object home.object)) := by
  have hgrows := Grows.addDefine s (some outer) "this" (.object home.object)
  refine h.growOne hgrows (by simp) rfl rfl ⟨fun v hv => ?_, fun k hk => ?_⟩
  · obtain rfl : Value.object home.object = v := by simpa [Store.own?_define] using hv
    exact ⟨home, outer, hnew, rfl, by simp [Store.enclosing_addScope_self],
      houter.grow hgrows (Nat.le_refl _)⟩
  · obtain rfl : outer = k := by simpa [Store.enclosing_addScope_self] using hk
    refine ⟨Nat.lt_of_lt_of_le houter.known hgrows.size, fun hnone => ?_⟩
    simp [Store.own?_define] at hnone

theorem addFunction (h : g.Describes s) {c : Closure} (hscope : c.scope < s.nextScope)
    (hnew : g.functions s.nextFunction = g.scopes c.scope) : g.Describes (s.addFunction c) := by
  have hgrows : Grows s (s.addFunction c) := .ofScopes rfl
  refine ⟨fun k hk => (h.scopes k hk).grow hk hgrows (Nat.le_refl _), fun id hid => ?_,
    fun cls name c hc => (h.methods cls name c hc).grow hgrows (Nat.le_refl _), h.superclass,
    h.global.1.grow hgrows, h.global.2⟩
  rw [Store.nextFunction_addFunction] at hid
  rw [Store.closure_addFunction]
  split
  next heq => exact ⟨hscope, heq ▸ hnew⟩
  next hne => exact h.functions id (by omega)

theorem addClass (h : g.Describes s) {c : Class} (hnew : g.superclass s.nextClass = c.superclass)
    (hmethods : ∀ name method, (name, method) ∈ c.methods.entries →
      method.scope < s.nextScope ∧
        s.own? method.scope "super" = c.superclass.map Value.cls) : g.Describes (s.addClass c) := by
  have hgrows : Grows s (s.addClass c) := .ofScopes rfl
  have hsize : s.nextClass ≤ (s.addClass c).nextClass := by simp
  refine ⟨fun k hk => (h.scopes k hk).grow hk hgrows hsize, h.functions,
    fun cls name method hmethod => ?_, fun cls hcls => ?_, h.global.1.grow hgrows, h.global.2⟩
  · rw [Store.classOf_addClass] at hmethod
    split at hmethod
    next heq =>
      obtain ⟨hlt, hsuper⟩ := hmethods name method hmethod
      exact ⟨by simp [heq], hlt, by rw [heq, hnew]; exact hsuper⟩
    next => exact (h.methods cls name method hmethod).grow hgrows hsize
  · rw [Store.classOf_addClass]
    rw [Store.nextClass_addClass] at hcls
    split
    next heq => rw [heq, hnew]
    next hne => exact h.superclass cls (by omega)

/-- Outwards from a scope up to the first `this`, everything is at home at one place. -/
theorem innermost_this (h : g.Describes s) {clean : Prop} {Γ : Scopes} {k d : Nat}
    (hfits : Store.Fits clean s Γ k) (hd : Γ.distance? "this" = some d) :
    ∃ home j outer, g.scopes k = some home ∧ s.scopeAt? k d = some j ∧
      s.own? j "this" = some (.object home.object) ∧ (s.scope j).enclosing = some outer ∧
      g.Surrounds s home.cls outer := by
  induction Γ generalizing k d with
  | nil => cases hd
  | cons scope Γ ih =>
    obtain ⟨-, hheld, outer, houter, hrest⟩ := hfits
    have hsuits := h.scopes k hheld.known
    rw [Scopes.distance?_cons] at hd
    split at hd
    next hcontains =>
      obtain rfl : 0 = d := by simpa using hd
      obtain ⟨object, hobject⟩ := hheld.this hcontains
      obtain ⟨home, outer, hhome, hvalue, hlink, hsurrounds⟩ := hsuits.this _ hobject
      exact ⟨home, k, outer, hhome, rfl, hvalue ▸ hobject, hlink, hsurrounds⟩
    next hcontains =>
      obtain ⟨d, hd', rfl⟩ := Option.map_eq_some_iff.1 hd
      obtain ⟨home, j, outer', hhome, hj, hfound⟩ := ih hrest hd'
      -- where the program has no `this`, the scope has none: it is at home with its outer one
      have hnone := hheld.absent "this" (.inl rfl) (by simpa using hcontains)
      refine ⟨home, j, outer', ?_, by simp [Store.scopeAt?, houter, hj], hfound⟩
      rw [(hsuits.inner outer houter).2 hnone, hhome]

end Describes

end Homes

end ClassScript
