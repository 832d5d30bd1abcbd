import ClassScript.Proofs.Store.Growth
import ClassScript.Proofs.Tree.Targets

/-! # Links lead back

A scope is linked to one that was made before it, and so is a class; links and classes stay what
they are.  So all walks along links end, and a walk that is bounded by the number it starts from
finds what a walk without a bound would find.
-/
namespace ClassScript

/-- A class that is a value has been declared. -/
def Value.Declared (s : Store) (v : Value) : Prop := ∀ cls, v = .cls cls → cls < s.nextClass

/-- Only classes have to be declared. -/
theorem Value.declared_of_ne {s : Store} {v : Value} (h : ∀ cls, v ≠ .cls cls) : v.Declared s :=
  fun cls hcls => absurd hcls (h cls)

/-- The scope of the closure is there, and its code assigns to allowed targets only. -/
structure Closure.Grounded (allowed : Reference → Prop) (s : Store) (c : Closure) : Prop where
  scope : c.scope < s.nextScope
  targets : ∀ ref ∈ c.declaration.targets, allowed ref

namespace Store

/-- From a store to a later one.  What was made is still there, scopes have the links that they had,
and classes are what they were. -/
structure Lasts (s s' : Store) : Prop where
  scopes : s.nextScope ≤ s'.nextScope
  classes : s.nextClass ≤ s'.nextClass
  enclosing : ∀ k, k < s.nextScope → (s'.scope k).enclosing = (s.scope k).enclosing
  classOf : ∀ cls, cls < s.nextClass → s'.classOf cls = s.classOf cls

/-- Every scope but the global one is linked to an older one, and a class has no superclass or an
older one. -/
structure Linked (s : Store) : Prop where
  outermost : (s.scope globalScope).enclosing = none
  enclosing : ∀ k, k < s.nextScope → k ≠ globalScope →
    ∃ outer, (s.scope k).enclosing = some outer ∧ outer < k
  superclass : ∀ cls superclass, (s.classOf cls).superclass = some superclass → superclass < cls

/-- Links lead back, and whatever is held in the store is there to be linked to. -/
structure Grounded (allowed : Reference → Prop) (s : Store) : Prop extends s.Linked where
  global : globalScope < s.nextScope
  names : ∀ k name v, s.own? k name = some v → v.Declared s
  fields : ∀ id name v, (s.object id).fields.get? name = some v → v.Declared s
  functions : ∀ id, (s.closure id).Grounded allowed s
  methods : ∀ cls name c, (name, c) ∈ (s.classOf cls).methods.entries → c.Grounded allowed s
  natives : ∀ id, s.native id = .clock

variable {allowed allowed' : Reference → Prop} {s s' s'' : Store} {v : Value} {c : Closure}

namespace Lasts

theorem refl (s : Store) : Lasts s s :=
  ⟨Nat.le_refl _, Nat.le_refl _, fun _ _ => rfl, fun _ _ => rfl⟩

theorem trans (h : Lasts s s') (h' : Lasts s' s'') : Lasts s s'' where
  scopes := Nat.le_trans h.scopes h'.scopes
  classes := Nat.le_trans h.classes h'.classes
  enclosing k hk := (h'.enclosing k (Nat.lt_of_lt_of_le hk h.scopes)).trans (h.enclosing k hk)
  classOf cls hcls :=
    (h'.classOf cls (Nat.lt_of_lt_of_le hcls h.classes)).trans (h.classOf cls hcls)

theorem addScope (s : Store) (enclosing : Option Nat) : Lasts s (s.addScope enclosing) where
  scopes := by simp
  classes := Nat.le_refl _
  enclosing k hk := by rw [scope_addScope, if_neg (Nat.ne_of_lt hk)]
  classOf _ _ := rfl

theorem define (s : Store) (id : Nat) (name : String) (value : Value) :
    Lasts s (s.define id name value) where
  scopes := by simp
  classes := Nat.le_refl _
  enclosing k _ := enclosing_define s id name value k
  classOf _ _ := rfl

theorem addClass (s : Store) (c : Class) : Lasts s (s.addClass c) where
  scopes := Nat.le_refl _
  classes := by simp
  enclosing _ _ := rfl
  classOf cls hcls := by rw [classOf_addClass, if_neg (Nat.ne_of_lt hcls)]

theorem declared (h : Lasts s s') (hv : v.Declared s) : v.Declared s' :=
  fun cls hcls => Nat.lt_of_lt_of_le (hv cls hcls) h.classes

theorem closure (h : Lasts s s') (hc : c.Grounded allowed s) : c.Grounded allowed s' :=
  ⟨Nat.lt_of_lt_of_le hc.scope h.scopes, hc.targets⟩

end Lasts

namespace Grounded

theorem mono (h : s.Grounded allowed) (hallowed : ∀ ref, allowed ref → allowed' ref) :
    s.Grounded allowed' where
  toLinked := h.toLinked
  global := h.global
  names := h.names
  fields := h.fields
  functions id := ⟨(h.functions id).scope, fun ref href =>
    hallowed ref ((h.functions id).targets ref href)⟩
  methods cls name c hc := ⟨(h.methods cls name c hc).scope, fun ref href =>
    hallowed ref ((h.methods cls name c hc).targets ref href)⟩
  natives := h.natives

theorem addScope (h : s.Grounded allowed) {outer : Nat} (houter : outer < s.nextScope) :
    (s.addScope (some outer)).Grounded allowed where
  outermost := by rw [scope_addScope, if_neg (Nat.ne_of_lt h.global), h.outermost]
  enclosing k hk hglobal := by
    rw [nextScope_addScope] at hk
    rw [scope_addScope]
    split
    next heq => exact ⟨outer, rfl, heq ▸ houter⟩
    next hne => exact h.enclosing k (by omega) hglobal
  superclass := h.superclass
  global := by
    rw [nextScope_addScope]
    exact Nat.lt_succ_of_lt h.global
  names k name v hv := by
    rw [own?_addScope] at hv
    exact h.names k name v hv
  fields := h.fields
  functions id := (Lasts.addScope s _).closure (h.functions id)
  methods cls name c hc := (Lasts.addScope s _).closure (h.methods cls name c hc)
  natives := h.natives

theorem define (h : s.Grounded allowed) (k : Nat) (name : String) (hv : v.Declared s) :
    (s.define k name v).Grounded allowed where
  outermost := by rw [enclosing_define, h.outermost]
  enclosing j hj hglobal := by
    rw [nextScope_define] at hj
    rw [enclosing_define]
    exact h.enclosing j hj hglobal
  superclass := h.superclass
  global := by
    rw [nextScope_define]
    exact h.global
  names j other w hw := by
    rw [own?_define] at hw
    split at hw
    · obtain rfl : v = w := Option.some.inj hw
      exact hv
    · exact h.names j other w hw
  fields := h.fields
  functions id := (Lasts.define s k name v).closure (h.functions id)
  methods cls other c hc := (Lasts.define s k name v).closure (h.methods cls other c hc)
  natives := h.natives

theorem addFunction (h : s.Grounded allowed) (hc : c.Grounded allowed s) :
    (s.addFunction c).Grounded allowed where
  toLinked := ⟨h.outermost, h.enclosing, h.superclass⟩
  global := h.global
  names := h.names
  fields := h.fields
  functions id := by
    rw [closure_addFunction]
    split
    · exact ⟨hc.scope, hc.targets⟩
    · exact ⟨(h.functions id).scope, (h.functions id).targets⟩
  methods cls name c hc := ⟨(h.methods cls name c hc).scope, (h.methods cls name c hc).targets⟩
  natives := h.natives

theorem addClass (h : s.Grounded allowed) {c : Class}
    (hsuperclass : ∀ superclass, c.superclass = some superclass → superclass < s.nextClass)
    (hmethods : ∀ name method, (name, method) ∈ c.methods.entries → method.Grounded allowed s) :
    (s.addClass c).Grounded allowed where
  outermost := h.outermost
  enclosing := h.enclosing
  superclass cls superclass hcls := by
    rw [classOf_addClass] at hcls
    split at hcls
    next heq => exact heq ▸ hsuperclass superclass hcls
    next => exact h.superclass cls superclass hcls
  global := h.global
  names k name v hv := (Lasts.addClass s c).declared (h.names k name v hv)
  fields id name v hv := (Lasts.addClass s c).declared (h.fields id name v hv)
  functions id := (Lasts.addClass s c).closure (h.functions id)
  methods cls name method hmethod := by
    rw [classOf_addClass] at hmethod
    split at hmethod
    · exact (Lasts.addClass s c).closure (hmethods name method hmethod)
    · exact (Lasts.addClass s c).closure (h.methods cls name method hmethod)
  natives := h.natives

/-- Objects are all that changes. -/
theorem withObjects (h : s.Grounded allowed) {objects : Array Object}
    (hobjects : ∀ id name v, ((objects.getD id default).fields.get? name) = some v →
      v.Declared s) : Grounded allowed { s with objects } where
  toLinked := ⟨h.outermost, h.enclosing, h.superclass⟩
  global := h.global
  names := h.names
  fields := hobjects
  functions id := ⟨(h.functions id).scope, (h.functions id).targets⟩
  methods cls name c hc := ⟨(h.methods cls name c hc).scope, (h.methods cls name c hc).targets⟩
  natives := h.natives

theorem addObject (h : s.Grounded allowed) (cls : Nat) : (s.addObject cls).Grounded allowed := by
  refine h.withObjects fun id name v hv => ?_
  rw [Array.getD_eq_getD_getElem?, Array.getElem?_push] at hv
  split at hv
  · cases hv
  · rw [← Array.getD_eq_getD_getElem?] at hv
    exact h.fields id name v hv

theorem setField (h : s.Grounded allowed) (id : Nat) (name : String) (hv : v.Declared s) :
    (s.setField id name v).Grounded allowed := by
  refine h.withObjects fun j other w hw => ?_
  by_cases hj : id = j ∧ j < s.objects.size
  · obtain ⟨rfl, hlt⟩ := hj
    have hfields : (s.object id).fields = s.objects[id].fields := by
      simp [Store.object, Array.getD_eq_getD_getElem?, hlt]
    simp only [Array.getD_eq_getD_getElem?, Array.getElem?_modify, if_true,
      Array.getElem?_eq_getElem hlt, Option.map_some, Option.getD_some, Bindings.get?_insert] at hw
    split at hw
    · obtain rfl : v = w := Option.some.inj hw
      exact hv
    · exact h.fields id other w (hfields ▸ hw)
  · have hsame : (s.setField id name v).object j = s.object j := by
      simp only [Store.object, Store.setField, Array.getD_eq_getD_getElem?, Array.getElem?_modify]
      split
      next heq =>
        rw [Array.getElem?_eq_none (by omega)]
        rfl
      next => rfl
    exact h.fields j other w (hsame ▸ hw)

/-- Methods that are inherited are grounded too. -/
theorem method (h : s.Grounded allowed) {cls : Nat} {name : String}
    (hc : s.method? cls name = some c) : c.Grounded allowed s := by
  have hwithin (n cls : Nat) (hc : s.methodWithin? name n cls = some c) :
      c.Grounded allowed s := by
    induction n generalizing cls with
    | zero => cases hc
    | succ n ih =>
      rw [methodWithin?] at hc
      split at hc
      next method hmethod =>
        obtain rfl : method = c := Option.some.inj hc
        exact h.methods cls name method (Bindings.mem_of_get? hmethod)
      next =>
        obtain ⟨superclass, -, hsuper⟩ := Option.bind_eq_some_iff.1 hc
        exact ih superclass hsuper
  exact hwithin _ _ hc

end Grounded

/-- Links lead to scopes that were made before. -/
def Descends (s : Store) : Prop := ∀ k outer, (s.scope k).enclosing = some outer → outer < k

namespace Descends

/-- A bound beyond the number of a scope makes no difference to a walk from there. -/
theorem ownerWithin?_of_lt (h : s.Descends) (name : String) {k n : Nat} (hk : k < n) :
    s.ownerWithin? name n k = s.owner? k name := by
  -- a link leads to a smaller number, from which both bounds suffice again
  induction k using Nat.strongRecOn generalizing n with
  | ind k ih =>
    obtain ⟨n, rfl⟩ : ∃ n', n = n' + 1 := ⟨n - 1, by omega⟩
    rw [owner?, ownerWithin?, ownerWithin?]
    cases hlink : (s.scope k).enclosing with
    | none => rfl
    | some outer =>
      have hlt := h k outer hlink
      rw [Option.bind_some, Option.bind_some, ih outer hlt (by omega), ih outer hlt hlt]

theorem owner?_eq (h : s.Descends) (k : Nat) (name : String) :
    s.owner? k name = if (s.own? k name).isSome then some k
      else (s.scope k).enclosing.bind fun outer => s.owner? outer name := by
  rw [owner?, ownerWithin?]
  congr 1
  refine Option.bind_congr fun outer houter => ?_
  exact h.ownerWithin?_of_lt name (h k outer houter)

end Descends

namespace Linked

theorem lt_of_enclosing (h : s.Linked) {k outer : Nat}
    (hk : (s.scope k).enclosing = some outer) : outer < k := by
  have hglobal : k ≠ globalScope := by
    rintro rfl
    rw [h.outermost] at hk
    cases hk
  obtain ⟨older, holder, hlt⟩ := h.enclosing k (Store.lt_of_enclosing hk) hglobal
  obtain rfl : older = outer := Option.some.inj (holder.symm.trans hk)
  exact hlt

theorem descends (h : s.Linked) : s.Descends := fun _ _ => h.lt_of_enclosing

theorem scopeAt?_lt (h : s.Linked) {k d j : Nat} (hj : s.scopeAt? k d = some j) : j + d ≤ k := by
  induction d generalizing k with
  | zero =>
    obtain rfl : k = j := Option.some.inj hj
    exact Nat.le_refl k
  | succ d ih =>
    obtain ⟨outer, houter, hrest⟩ := Option.bind_eq_some_iff.1 hj
    have hlt := h.lt_of_enclosing houter
    have hle := ih hrest
    omega

/-- A chain ends at the global scope. -/
theorem exists_scopeAt? (h : s.Linked) {k : Nat} (hk : k < s.nextScope) :
    ∃ d, s.scopeAt? k d = some globalScope := by
  induction k using Nat.strongRecOn with
  | ind k ih =>
    by_cases hglobal : k = globalScope
    · exact ⟨0, congrArg some hglobal⟩
    · obtain ⟨outer, houter, hlt⟩ := h.enclosing k hk hglobal
      obtain ⟨d, hd⟩ := ih outer hlt (Nat.lt_trans hlt hk)
      exact ⟨d + 1, by rw [scopeAt?, houter, Option.bind_some, hd]⟩

theorem methodWithin?_of_lt (h : s.Linked) (name : String) {cls n : Nat} (hcls : cls < n) :
    s.methodWithin? name n cls = s.method? cls name := by
  induction cls using Nat.strongRecOn generalizing n with
  | ind cls ih =>
    obtain ⟨n, rfl⟩ : ∃ n', n = n' + 1 := ⟨n - 1, by omega⟩
    rw [method?, methodWithin?, methodWithin?]
    cases hlink : (s.classOf cls).superclass with
    | none => rfl
    | some superclass =>
      have hlt := h.superclass cls superclass hlink
      rw [Option.bind_some, Option.bind_some, ih superclass hlt (by omega), ih superclass hlt hlt]

theorem method?_eq (h : s.Linked) (cls : Nat) (name : String) :
    s.method? cls name = ((s.classOf cls).methods.get? name).or
      ((s.classOf cls).superclass.bind fun superclass => s.method? superclass name) := by
  rw [method?, methodWithin?]
  have hrest : ((s.classOf cls).superclass.bind fun id => s.methodWithin? name cls id) =
      (s.classOf cls).superclass.bind fun id => s.method? id name :=
    Option.bind_congr fun superclass hsuper =>
      h.methodWithin?_of_lt name (h.superclass cls superclass hsuper)
  cases (s.classOf cls).methods.get? name with
  | none => exact hrest
  | some c => rfl

end Linked

/-- Links lead back to the global scope and to classes without a superclass, and reading a name,
rebinding it and looking a method up are what they would be without a bound on the walk. -/
structure Rooted (s : Store) : Prop extends s.Linked where
  ends : ∀ k, k < s.nextScope → ∃ d, s.scopeAt? k d = some globalScope
  beyond : ∀ k d, k < d → s.scopeAt? k d = none
  scopes : WellFounded fun outer k => (s.scope k).enclosing = some outer
  classes : WellFounded fun superclass cls => (s.classOf cls).superclass = some superclass
  value : ∀ k name, s.value? k name =
    (s.own? k name).or ((s.scope k).enclosing.bind fun outer => s.value? outer name)
  rebind : ∀ k name v, s.rebind? k name v =
    if (s.own? k name).isSome then some (s.define k name v)
    else (s.scope k).enclosing.bind fun outer => s.rebind? outer name v
  method : ∀ cls name, s.method? cls name =
    ((s.classOf cls).methods.get? name).or
      ((s.classOf cls).superclass.bind fun superclass => s.method? superclass name)

theorem Linked.rooted (h : s.Linked) : s.Rooted where
  toLinked := h
  ends k hk := h.exists_scopeAt? hk
  beyond k d hd := by
    cases hscope : s.scopeAt? k d with
    | none => rfl
    | some j =>
      have hle := h.scopeAt?_lt hscope
      omega
  scopes := Subrelation.wf (fun hlink => h.lt_of_enclosing hlink) Nat.lt_wfRel.wf
  classes := Subrelation.wf (fun hlink => h.superclass _ _ hlink) Nat.lt_wfRel.wf
  value k name := by
    rw [value?, h.descends.owner?_eq]
    cases hown : s.own? k name with
    | some v => simp [hown]
    | none => cases hlink : (s.scope k).enclosing <;> simp [value?]
  rebind k name v := by
    rw [rebind?, h.descends.owner?_eq]
    by_cases hown : (s.own? k name).isSome
    · rw [if_pos hown, if_pos hown]
      rfl
    · rw [if_neg hown, if_neg hown]
      cases hlink : (s.scope k).enclosing <;> simp [rebind?]
  method := h.method?_eq

end Store

end ClassScript
