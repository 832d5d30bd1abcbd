import ClassScript.Proofs.Braces.Store

/-! # Worlds with the scopes of braces

A reference is read and rebound in a scope and in its twin, methods are bound inside twins, and what
is printed is the same, whether the program has braces or not.
-/
namespace ClassScript

open Twins (Later)

/-- The world of a program without braces and that of the program with them. -/
structure World.Nested (D D' : Distances) (ι : Twins) (w w' : World) : Prop where
  store : Store.Nested D D' ι w.store w'.store
  distances : w.distances = D
  distances' : w'.distances = D'
  output : w'.output = w.output
  clockReads : w'.clockReads = w.clockReads
  log : w'.log = w.log

variable {D D' : Distances} {ι : Twins} {w w' : World} {σ : Nesting} {k k' : Nat}

namespace World.Nested

theorem withStore {ι' : Twins} {s s' : Store} (h : World.Nested D D' ι w w')
    (hs : Store.Nested D D' ι' s s') :
    World.Nested D D' ι' { w with store := s } { w' with store := s' } :=
  ⟨hs, h.distances, h.distances', h.output, h.clockReads, h.log⟩

theorem distance? (h : World.Nested D D' ι w w') {ref : Reference} (href : ref.Placed D D' σ) :
    w'.distance? ref = (w.distance? ref).map σ.place := by
  rw [World.distance?, World.distance?, h.distances, h.distances', href]

theorem read (h : World.Nested D D' ι w w') (hk : ι.Paired w.store w'.store σ k k')
    {ref : Reference} (href : ref.Placed D D' σ) : w'.read k' ref = w.read k ref := by
  unfold World.read
  rw [h.distance? href]
  cases w.distance? ref with
  | some d => exact congrArg (Store.orUndefined ref.name) (h.store.scopes.valueAt? hk d _)
  | none => exact congrArg (Store.orUndefined ref.name) (h.store.scopes.valueAt? .global 0 _)

/-- A reference is rebound in a scope and in its twin, or in neither world. -/
theorem target? (h : World.Nested D D' ι w w') (hk : ι.Paired w.store w'.store σ k k')
    {ref : Reference} (href : ref.Placed D D' σ) :
    w'.target? k' ref = (w.target? k ref).map ι ∧
      ∀ j, w.target? k ref = some j → j < w.store.nextScope := by
  unfold World.target?
  rw [h.distance? href]
  cases w.distance? ref with
  | some d => exact h.store.scopes.holderAt? hk d ref.name.lexeme
  | none => exact h.store.scopes.holderAt? .global 0 ref.name.lexeme

theorem define (h : World.Nested D D' ι w w') (hk : k < w.store.nextScope) (name : String)
    (v : Value) : World.Nested D D' ι (w.define k name v) (w'.define (ι k) name v) :=
  h.withStore (h.store.define hk name v)

theorem defineAll (h : World.Nested D D' ι w w') (hk : k < w.store.nextScope) (names : List Token)
    (values : List Value) :
    World.Nested D D' ι (w.defineAll k names values) (w'.defineAll (ι k) names values) ∧
      Later ι w.store w'.store ι (w.defineAll k names values).store
        (w'.defineAll (ι k) names values).store := by
  induction names generalizing w w' values with
  | nil => exact ⟨h, .refl _ _ _⟩
  | cons t names ih =>
    cases values with
    | nil => exact ⟨h, .refl _ _ _⟩
    | cons v values =>
      obtain ⟨hnested, hlater⟩ := ih (h.define hk t.lexeme v)
        (by rwa [World.define, Store.nextScope_define]) values
      exact ⟨hnested, .trans (.define ι w.store w'.store k (ι k) t.lexeme v) hlater⟩

/-- A scope inside two that are paired, which binds one name to a value. -/
theorem bind (h : World.Nested D D' ι w w') (hk : ι.Paired w.store w'.store σ k k')
    (name : String) (v : Value) :
    let s := (w.store.addScope (some k)).define w.store.nextScope name v
    let s' := (w'.store.addScope (some k')).define w'.store.nextScope name v
    World.Nested D D' (ι.add w.store w'.store) { w with store := s } { w' with store := s' } ∧
      Later ι w.store w'.store (ι.add w.store w'.store) s s' ∧
      (ι.add w.store w'.store).Paired s s' (true :: σ) w.store.nextScope w'.store.nextScope := by
  intro s s'
  have hadd := h.store.addScope (some k) (some k')
  have htwin : ι.add w.store w'.store w.store.nextScope = w'.store.nextScope := if_pos rfl
  have hdefine := hadd.define (k := w.store.nextScope) (by simp) name v
  have hlater : Later (ι.add w.store w'.store) (w.store.addScope (some k))
      (w'.store.addScope (some k')) (ι.add w.store w'.store) s s' := .define _ _ _ _ _ _ _
  rw [htwin] at hdefine
  exact ⟨h.withStore hdefine, .trans (.addScope ι _ _ _ _) hlater, hk.addScope.later hlater⟩

/-- A method that is bound to an instance. -/
theorem bindMethod (h : World.Nested D D' ι w w') {c c' : Closure}
    (hc : c.Nested D D' ι w.store w'.store [true] c') (object : Nat) :
    ∃ ι', Later ι w.store w'.store ι' (w.bindMethod c object).1.store
        (w'.bindMethod c' object).1.store ∧
      World.Nested D D' ι' (w.bindMethod c object).1 (w'.bindMethod c' object).1 ∧
      (w.bindMethod c object).2.Nested D D' ι' (w.bindMethod c object).1.store
        (w'.bindMethod c' object).1.store [] (w'.bindMethod c' object).2 := by
  obtain ⟨σ, -, hpaired, hdeclaration⟩ := hc.declaration
  obtain ⟨hnested, hlater, hthis⟩ := h.bind hpaired "this" (.object object)
  exact ⟨_, hlater, hnested, hc.isInitializer, true :: σ, Nesting.solid_cons σ, hthis,
    hdeclaration⟩

theorem methodValue (h : World.Nested D D' ι w w') {c c' : Closure}
    (hc : c.Nested D D' ι w.store w'.store [true] c') (object : Nat) :
    ∃ ι', Later ι w.store w'.store ι' (w.methodValue c object).1.store
        (w'.methodValue c' object).1.store ∧
      World.Nested D D' ι' (w.methodValue c object).1 (w'.methodValue c' object).1 ∧
      (w'.methodValue c' object).2 = (w.methodValue c object).2 := by
  obtain ⟨ι', hlater, hnested, hbound⟩ := h.bindMethod hc object
  refine ⟨ι', .trans hlater (.ofScopes ι' rfl rfl), ?_, ?_⟩
  · exact hnested.withStore (hnested.store.addFunction hbound)
  · simp only [World.methodValue, hnested.store.nextFunction]

theorem print (h : World.Nested D D' ι w w') (host : Host) (text : String) :
    World.Nested D D' ι (w.print host text).1 (w'.print host text).1 ∧
      (w'.print host text).2 = (w.print host text).2 := by
  simp only [World.print, h.output]
  exact ⟨⟨h.store, h.distances, h.distances', rfl, h.clockReads, h.log⟩, trivial⟩

end World.Nested

end ClassScript
