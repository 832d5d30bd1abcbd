import ClassScript.Proofs.Evaluation.Onward
import ClassScript.Proofs.Store.Links

/-! # What a machine holds

Everything that a machine may still use is in the store, and the code that it may still run keeps
within limits: it assigns to some targets only, and declares only some names at global scope.
-/
namespace ClassScript

open Store (Lasts)

/-- The targets to which code may assign, and the names that it may declare at global scope. -/
structure Limits where
  target : Reference → Prop
  declared : Token → Prop

/-- All of the targets are within the limits. -/
def Limits.Admits (L : Limits) (refs : List Reference) : Prop := ∀ ref ∈ refs, L.target ref

/-- A statement that is to be executed in the scope `k` keeps within the limits. -/
structure Stmt.Within (L : Limits) (k : Nat) (s : Stmt) : Prop where
  targets : L.Admits s.targets
  declares : k = globalScope → ∀ name ∈ s.declares, L.declared name

def Completion.Grounded (s : Store) : Completion → Prop
  | .normal => True
  | .returned v => v.Declared s

def Control.Grounded (L : Limits) (s : Store) (k : Nat) : Control → Prop
  | .eval e => L.Admits e.targets
  | .exec stmt => stmt.Within L k
  | .value v => v.Declared s
  | .done c => c.Grounded s
  | .text _ | .fault _ => True

/-- A frame that waits in the scope `k`. -/
def Frame.Grounded (L : Limits) (s : Store) (k : Nat) : Frame → Prop
  | .left _ e | .logical _ e | .setObject _ e => L.Admits e.targets
  | .right _ v => v.Declared s
  | .assign target => L.target target
  | .callee _ es => L.Admits (Expr.targetsAll es)
  | .argument function _ before after =>
    function.Declared s ∧ (∀ v ∈ before, v.Declared s) ∧ L.Admits (Expr.targetsAll after)
  | .define name => k = globalScope → L.declared name
  | .branch stmt negative => stmt.Within L k ∧ ∀ t ∈ negative, t.Within L k
  | .loopTest c stmt | .loopBody c stmt => L.Admits c.targets ∧ stmt.Within L k
  | .sequence rest outer => (∀ stmt ∈ rest, stmt.Within L k) ∧ outer < s.nextScope
  | .unary _ | .append _ | .get _ | .setField _ _ | .construct _ | .show | .discard | .printValue
  | .printText | .ret | .body _ => True

/-- Frames that wait in the scope `k` and then in the scopes to which statement lists return. -/
def Frame.GroundedAll (L : Limits) (s : Store) : Nat → List Frame → Prop
  | _, [] => True
  | k, f :: fs => f.Grounded L s k ∧ Frame.GroundedAll L s (f.outer?.getD k) fs

structure Machine.Grounded (L : Limits) (m : Machine) : Prop where
  store : m.world.store.Grounded L.target
  scope : m.scope < m.world.store.nextScope
  control : m.control.Grounded L m.world.store m.scope
  frames : Frame.GroundedAll L m.world.store m.scope m.frames

section Limits

variable {L : Limits} {refs refs' : List Reference}

theorem Limits.admits_append : L.Admits (refs ++ refs') ↔ L.Admits refs ∧ L.Admits refs' :=
  List.forall_mem_append

theorem Limits.admits_cons {ref : Reference} :
    L.Admits (ref :: refs) ↔ L.target ref ∧ L.Admits refs :=
  List.forall_mem_cons

/-- Code of a list of statements in a scope that is not the global one. -/
theorem Stmt.within_of_admits {k : Nat} (hk : k ≠ globalScope) {body : List Stmt}
    (h : L.Admits (Stmt.targetsAll body)) : ∀ s ∈ body, s.Within L k :=
  fun _ hs => ⟨fun ref href => h ref (Stmt.targets_subset hs href), fun heq => absurd heq hk⟩

/-- Both branches of a statement are where the statement is. -/
theorem Stmt.Within.branch {k : Nat} {c : Expr} {s : Stmt} {negative : Option Stmt}
    (h : (Stmt.branch c s negative).Within L k) :
    L.Admits c.targets ∧ s.Within L k ∧ ∀ t ∈ negative, t.Within L k := by
  obtain ⟨htargets, hdeclares⟩ := h
  cases negative with
  | none =>
    rw [Stmt.targets, Limits.admits_append] at htargets
    rw [Stmt.declares] at hdeclares
    exact ⟨htargets.1, ⟨htargets.2, hdeclares⟩, by simp⟩
  | some t =>
    rw [Stmt.targets, Limits.admits_append, Limits.admits_append] at htargets
    simp only [Stmt.declares, List.forall_mem_append] at hdeclares
    obtain ⟨⟨hc, hs⟩, ht⟩ := htargets
    refine ⟨hc, ⟨hs, fun hk => (hdeclares hk).1⟩, fun t' ht' => ?_⟩
    obtain rfl : t = t' := by simpa using ht'
    exact ⟨ht, fun hk => (hdeclares hk).2⟩

theorem Stmt.Within.loop {k : Nat} {c : Expr} {s : Stmt} (h : (Stmt.loop c s).Within L k) :
    L.Admits c.targets ∧ s.Within L k := by
  obtain ⟨htargets, hdeclares⟩ := h
  rw [Stmt.targets, Limits.admits_append] at htargets
  exact ⟨htargets.1, htargets.2, hdeclares⟩

end Limits

section Mono

variable {L : Limits} {s s' : Store} {k : Nat}

theorem Control.Grounded.mono {c : Control} (h : c.Grounded L s k) (hlasts : Lasts s s') :
    c.Grounded L s' k := by
  cases c with
  | value v => exact hlasts.declared h
  | done c =>
    cases c with
    | normal => trivial
    | returned v => exact hlasts.declared h
  | _ => exact h

theorem Frame.Grounded.mono {f : Frame} (h : f.Grounded L s k) (hlasts : Lasts s s') :
    f.Grounded L s' k := by
  cases f with
  | right operator v => exact hlasts.declared (v := v) h
  | argument callee paren before after =>
    obtain ⟨hcallee, hbefore, hafter⟩ := h
    exact ⟨hlasts.declared hcallee, fun v hv => hlasts.declared (hbefore v hv), hafter⟩
  | sequence rest outer => exact ⟨h.1, Nat.lt_of_lt_of_le h.2 hlasts.scopes⟩
  | _ => exact h

theorem Frame.GroundedAll.mono {fs : List Frame} (h : Frame.GroundedAll L s k fs)
    (hlasts : Lasts s s') : Frame.GroundedAll L s' k fs := by
  induction fs generalizing k with
  | nil => trivial
  | cons f fs ih => exact ⟨h.1.mono hlasts, ih h.2⟩

end Mono

namespace Store.Grounded

variable {allowed : Reference → Prop} {s : Store}

theorem valueAt? (h : s.Grounded allowed) {k d : Nat} {name : String} {v : Value}
    (hv : s.valueAt? k d name = some v) : v.Declared s := by
  obtain ⟨j, -, hj⟩ := Option.bind_eq_some_iff.1 hv
  exact h.names j name v hj

theorem read {w : World} (h : w.store.Grounded allowed) {k : Nat} {ref : Reference} {v : Value}
    (hv : w.read k ref = .ok v) : v.Declared w.store := by
  have horUndefined {found : Option Value} (hv : Store.orUndefined ref.name found = .ok v) :
      found = some v := by
    cases found with
    | none => cases hv
    | some v' => exact congrArg some (Except.ok.inj hv)
  unfold World.read at hv
  split at hv
  · exact h.valueAt? (horUndefined hv)
  · exact h.valueAt? (horUndefined hv)

end Store.Grounded

@[simp] theorem World.nextScope_defineAll (w : World) (k : Nat) (names : List Token)
    (values : List Value) : (w.defineAll k names values).store.nextScope = w.store.nextScope := by
  induction names generalizing w values with
  | nil => rfl
  | cons name names ih =>
    cases values with
    | nil => rfl
    | cons v values =>
      rw [World.defineAll, ih]
      simp [World.define]

/-- A world that has gone on from another one: things were made, but no name was bound in a scope
that was there, and nothing was written. -/
structure World.Adds (allowed : Reference → Prop) (w w' : World) : Prop where
  grounded : w'.store.Grounded allowed
  lasts : Lasts w.store w'.store
  names : ∀ k name, k < w.store.nextScope → w'.store.own? k name = w.store.own? k name
  output : w'.output = w.output

namespace World.Adds

variable {allowed : Reference → Prop} {w w' w'' : World} {v : Value}

theorem refl (h : w.store.Grounded allowed) : Adds allowed w w :=
  ⟨h, .refl _, fun _ _ _ => rfl, rfl⟩

theorem trans (h : Adds allowed w w') (h' : Adds allowed w' w'') : Adds allowed w w'' where
  grounded := h'.grounded
  lasts := h.lasts.trans h'.lasts
  names k name hk :=
    (h'.names k name (Nat.lt_of_lt_of_le hk h.lasts.scopes)).trans (h.names k name hk)
  output := h'.output.trans h.output

theorem addScope (h : w.store.Grounded allowed) {outer : Nat} (houter : outer < w.store.nextScope) :
    Adds allowed w (w.addScope (some outer)) :=
  ⟨h.addScope houter, .addScope _ _, fun k name _ => Store.own?_addScope _ _ k name, rfl⟩

/-- A name is bound in a scope that is new. -/
theorem define (h : Adds allowed w w') {k : Nat} (hk : w.store.nextScope ≤ k) (name : String)
    (hv : v.Declared w'.store) : Adds allowed w (w'.define k name v) where
  grounded := h.grounded.define k name hv
  lasts := h.lasts.trans (.define _ k name v)
  names j other hj := by
    have hne : j ≠ k := by omega
    rw [World.define, Store.own?_define, if_neg fun heq => hne heq.1, h.names j other hj]
  output := h.output

theorem defineAll (h : Adds allowed w w') {k : Nat} (hk : w.store.nextScope ≤ k)
    (names : List Token) {values : List Value} (hvalues : ∀ v ∈ values, v.Declared w'.store) :
    Adds allowed w (w'.defineAll k names values) := by
  induction names generalizing w' values with
  | nil => exact h
  | cons name names ih =>
    cases values with
    | nil => exact h
    | cons v values =>
      obtain ⟨hv, hvalues⟩ := List.forall_mem_cons.1 hvalues
      refine ih (h.define hk name.lexeme hv) fun v' hv' => ?_
      exact (Lasts.define w'.store k name.lexeme v).declared (hvalues v' hv')

theorem addFunction (h : w.store.Grounded allowed) {c : Closure}
    (hc : c.Grounded allowed w.store) : Adds allowed w (w.addFunction c) :=
  ⟨h.addFunction hc, ⟨Nat.le_refl _, Nat.le_refl _, fun _ _ => rfl, fun _ _ => rfl⟩,
    fun _ _ _ => rfl, rfl⟩

theorem addClass (h : w.store.Grounded allowed) {c : Class}
    (hsuperclass : ∀ superclass, c.superclass = some superclass → superclass < w.store.nextClass)
    (hmethods : ∀ name method, (name, method) ∈ c.methods.entries →
      method.Grounded allowed w.store) : Adds allowed w (w.addClass c) :=
  ⟨h.addClass hsuperclass hmethods, .addClass _ _, fun _ _ _ => rfl, rfl⟩

theorem addObject (h : w.store.Grounded allowed) (cls : Nat) : Adds allowed w (w.addObject cls) :=
  ⟨h.addObject cls, ⟨Nat.le_refl _, Nat.le_refl _, fun _ _ => rfl, fun _ _ => rfl⟩,
    fun _ _ _ => rfl, rfl⟩

theorem setField (h : w.store.Grounded allowed) (id : Nat) (name : String)
    (hv : v.Declared w.store) : Adds allowed w (w.setField id name v) :=
  ⟨h.setField id name hv, ⟨Nat.le_refl _, Nat.le_refl _, fun _ _ => rfl, fun _ _ => rfl⟩,
    fun _ _ _ => rfl, rfl⟩

/-- A method is bound to an instance. -/
theorem bindMethod (h : w.store.Grounded allowed) {method : Closure}
    (hmethod : method.Grounded allowed w.store) (object : Nat) :
    Adds allowed w (w.bindMethod method object).1 ∧
      (w.bindMethod method object).2.Grounded allowed (w.bindMethod method object).1.store := by
  have hthis : (Value.object object).Declared (w.addScope (some method.scope)).store :=
    Value.declared_of_ne (by simp)
  have hadds := (addScope h hmethod.scope).define (Nat.le_refl _) "this" hthis
  refine ⟨hadds, ?_, hmethod.targets⟩
  simp [World.bindMethod, World.define, World.addScope]

theorem methodValue (h : w.store.Grounded allowed) {method : Closure}
    (hmethod : method.Grounded allowed w.store) (object : Nat) :
    Adds allowed w (w.methodValue method object).1 := by
  obtain ⟨hadds, hbound⟩ := bindMethod h hmethod object
  exact hadds.trans (addFunction hadds.grounded hbound)

end World.Adds

end ClassScript
