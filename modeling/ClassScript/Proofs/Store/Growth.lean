import ClassScript.Evaluation.World

/-! # How the store grows

What each operation on the store does to scopes, functions and classes, and a relation between a
store and a later one: links stay, names that are bound stay bound, and a scope keeps its `this` and
its `super`, or that it has none.
-/
namespace ClassScript.Store

variable {s s' s'' : Store}

theorem scope_addScope (s : Store) (enclosing : Option Nat) (k : Nat) :
    (s.addScope enclosing).scope k = if k = s.nextScope then { enclosing } else s.scope k := by
  simp only [scope, addScope, nextScope, Array.getD_eq_getD_getElem?, Array.getElem?_push]
  split <;> rfl

theorem scope_define (s : Store) (id : Nat) (name : String) (value : Value) (k : Nat) :
    (s.define id name value).scope k =
      if k = id ∧ id < s.nextScope then
        { s.scope k with names := (s.scope k).names.insert name value }
      else s.scope k := by
  simp only [scope, define, nextScope, Array.getD_eq_getD_getElem?, Array.getElem?_modify]
  by_cases hk : k = id
  · subst hk
    by_cases hlt : k < s.scopes.size
    · simp [hlt]
    · simp [hlt]
  · simp [hk, Ne.symm hk]

theorem scope_of_le (s : Store) {k : Nat} (h : s.nextScope ≤ k) : s.scope k = {} := by
  rw [scope, Array.getD_eq_getD_getElem?, Array.getElem?_eq_none h]
  rfl

@[simp] theorem nextScope_addScope (s : Store) (enclosing : Option Nat) :
    (s.addScope enclosing).nextScope = s.nextScope + 1 := by
  simp [nextScope, addScope]

@[simp] theorem nextScope_define (s : Store) (id : Nat) (name : String) (value : Value) :
    (s.define id name value).nextScope = s.nextScope := by
  simp [nextScope, define]

theorem own?_define (s : Store) (id : Nat) (name : String) (value : Value) (k : Nat)
    (other : String) :
    (s.define id name value).own? k other =
      if k = id ∧ id < s.nextScope ∧ other = name then some value else s.own? k other := by
  rw [own?, scope_define]
  by_cases hk : k = id ∧ id < s.nextScope
  · by_cases hname : other = name <;> simp [hk, hname, own?]
  · rw [if_neg hk, if_neg fun h => hk ⟨h.1, h.2.1⟩, own?]

@[simp] theorem enclosing_define (s : Store) (id : Nat) (name : String) (value : Value) (k : Nat) :
    ((s.define id name value).scope k).enclosing = (s.scope k).enclosing := by
  rw [scope_define]
  split <;> rfl

theorem own?_addScope (s : Store) (enclosing : Option Nat) (k : Nat) (name : String) :
    (s.addScope enclosing).own? k name = s.own? k name := by
  rw [own?, own?, scope_addScope]
  split
  next h => rw [scope_of_le s (Nat.le_of_eq h.symm)]
  next => rfl

theorem enclosing_addScope_self (s : Store) (enclosing : Option Nat) :
    ((s.addScope enclosing).scope s.nextScope).enclosing = enclosing := by
  rw [scope_addScope, if_pos rfl]

theorem lt_of_enclosing {k outer : Nat} (h : (s.scope k).enclosing = some outer) :
    k < s.nextScope := by
  rcases Nat.lt_or_ge k s.nextScope with hlt | hle
  · exact hlt
  · rw [s.scope_of_le hle] at h
    cases h

theorem own?_of_le (s : Store) {k : Nat} (h : s.nextScope ≤ k) (name : String) :
    s.own? k name = none := by
  rw [own?, s.scope_of_le h]
  rfl

theorem lt_of_own? {k : Nat} {name : String} {v : Value} (h : s.own? k name = some v) :
    k < s.nextScope := by
  rcases Nat.lt_or_ge k s.nextScope with hlt | hle
  · exact hlt
  · rw [s.own?_of_le hle] at h
    cases h

theorem closure_addFunction (s : Store) (c : Closure) (id : Nat) :
    (s.addFunction c).closure id = if id = s.nextFunction then c else s.closure id := by
  simp only [closure, addFunction, nextFunction, Array.getD_eq_getD_getElem?, Array.getElem?_push]
  split <;> rfl

theorem classOf_addClass (s : Store) (c : Class) (id : Nat) :
    (s.addClass c).classOf id = if id = s.nextClass then c else s.classOf id := by
  simp only [classOf, addClass, nextClass, Array.getD_eq_getD_getElem?, Array.getElem?_push]
  split <;> rfl

@[simp] theorem nextFunction_addFunction (s : Store) (c : Closure) :
    (s.addFunction c).nextFunction = s.nextFunction + 1 := by
  simp [nextFunction, addFunction]

@[simp] theorem nextClass_addClass (s : Store) (c : Class) :
    (s.addClass c).nextClass = s.nextClass + 1 := by
  simp [nextClass, addClass]

/-- `this` and `super`, which no program declares. -/
def IsImplicit (name : String) : Prop := name = "this" ∨ name = "super"

theorem not_isImplicit {t : Token} (h : t.lexeme ≠ "this" ∧ t.lexeme ≠ "super") :
    ¬IsImplicit t.lexeme :=
  fun himplicit => himplicit.elim h.1 h.2

/-- From a store to a later one. -/
structure Grows (s s' : Store) : Prop where
  enclosing : ∀ k, k < s.nextScope → (s'.scope k).enclosing = (s.scope k).enclosing
  owned : ∀ k name, (s.own? k name).isSome → (s'.own? k name).isSome
  implicit : ∀ k name, IsImplicit name → k < s.nextScope → s'.own? k name = s.own? k name
  size : s.nextScope ≤ s'.nextScope

namespace Grows

theorem refl (s : Store) : Grows s s :=
  ⟨fun _ _ => rfl, fun _ _ h => h, fun _ _ _ _ => rfl, Nat.le_refl _⟩

theorem trans (h : Grows s s') (h' : Grows s' s'') : Grows s s'' where
  enclosing k hk := (h'.enclosing k (Nat.lt_of_lt_of_le hk h.size)).trans (h.enclosing k hk)
  owned k name hk := h'.owned k name (h.owned k name hk)
  implicit k name hname hk :=
    (h'.implicit k name hname (Nat.lt_of_lt_of_le hk h.size)).trans (h.implicit k name hname hk)
  size := Nat.le_trans h.size h'.size

theorem link (h : Grows s s') {k outer : Nat} (hk : (s.scope k).enclosing = some outer) :
    (s'.scope k).enclosing = some outer :=
  (h.enclosing k (lt_of_enclosing hk)).trans hk

theorem keeps (h : Grows s s') {k : Nat} {name : String} {v : Value} (hname : IsImplicit name)
    (hv : s.own? k name = some v) : s'.own? k name = some v :=
  (h.implicit k name hname (lt_of_own? hv)).trans hv

/-- A step that does not touch the scopes. -/
theorem ofScopes (h : s'.scopes = s.scopes) : Grows s s' := by
  have hscope (k : Nat) : s'.scope k = s.scope k := by rw [scope, scope, h]
  refine ⟨fun k _ => ?_, fun k name hk => ?_, fun k name _ _ => ?_, ?_⟩
  · rw [hscope]
  · rwa [own?, hscope]
  · rw [own?, own?, hscope]
  · exact Nat.le_of_eq (by rw [nextScope, nextScope, h])

theorem addScope (s : Store) (enclosing : Option Nat) : Grows s (s.addScope enclosing) where
  enclosing k hk := by rw [scope_addScope, if_neg (Nat.ne_of_lt hk)]
  owned k name hk := by rwa [own?_addScope]
  implicit k name _ _ := own?_addScope s enclosing k name
  size := by simp

theorem define (s : Store) (id : Nat) {name : String} (value : Value)
    (h : ¬IsImplicit name) : Grows s (s.define id name value) where
  enclosing k _ := enclosing_define s id name value k
  owned k other hk := by
    rw [own?_define]
    split
    · rfl
    · exact hk
  implicit k other hother _ := by
    have hne : other ≠ name := fun heq => h (heq ▸ hother)
    simp [own?_define, hne]
  size := by simp

/-- A new scope may bind any name. -/
theorem addDefine (s : Store) (enclosing : Option Nat) (name : String) (value : Value) :
    Grows s ((s.addScope enclosing).define s.nextScope name value) where
  enclosing k hk := (enclosing_define _ _ _ _ k).trans ((addScope s enclosing).enclosing k hk)
  owned k other hk := by
    rw [own?_define, own?_addScope]
    split
    · rfl
    · exact hk
  implicit k other _ hk := by
    simp [own?_define, own?_addScope, Nat.ne_of_lt hk]
  size := by simp

end Grows

end ClassScript.Store
