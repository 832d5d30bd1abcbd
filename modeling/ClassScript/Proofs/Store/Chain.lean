import ClassScript.Proofs.Scoping.Bound
import ClassScript.Proofs.Store.Growth

/-! # Chains of scopes

A chain of scopes in the store corresponds to the scopes that are open at a place of the program:
one for one, and where the program has no more, the chain is at the global scope.
-/
namespace ClassScript.Store

/-- The chain from `k` outwards has one scope for each element, none of them global, and then the
global one. -/
def Chain {α : Type} (P : α → Nat → Prop) (s : Store) : List α → Nat → Prop
  | [], k => k = globalScope
  | a :: as, k => k ≠ globalScope ∧ P a k ∧ ∃ outer, (s.scope k).enclosing = some outer ∧
      Chain P s as outer

theorem Chain.mono {α : Type} {P Q : α → Nat → Prop} {s s' : Store} (hP : ∀ a k, P a k → Q a k)
    (hlinks : ∀ k outer, (s.scope k).enclosing = some outer →
      (s'.scope k).enclosing = some outer) {as : List α} {k : Nat} (h : Chain P s as k) :
    Chain Q s' as k := by
  induction as generalizing k with
  | nil => exact h
  | cons a as ih =>
    obtain ⟨hne, ha, outer, houter, hchain⟩ := h
    exact ⟨hne, hP a k ha, outer, hlinks k outer houter, ih hchain⟩

/-- The scope at a distance exists, is not global and has the property of its element. -/
theorem Chain.scopeAt {α : Type} {P : α → Nat → Prop} {s : Store} {as : List α} {k d : Nat} {a : α}
    (h : Chain P s as k) (hd : as[d]? = some a) :
    ∃ j, s.scopeAt? k d = some j ∧ j ≠ globalScope ∧ P a j := by
  induction as generalizing k d with
  | nil => cases hd
  | cons b as ih =>
    obtain ⟨hne, hb, outer, houter, hchain⟩ := h
    cases d with
    | zero =>
      obtain rfl : b = a := by simpa using hd
      exact ⟨k, rfl, hne, hb⟩
    | succ d =>
      obtain ⟨j, hj, hne', ha⟩ := ih hchain hd
      exact ⟨j, by simp [scopeAt?, houter, hj], hne', ha⟩

/-- What a scope of the store must hold for a scope of the program.  It has `this` and `super` where
the program has them and nowhere else, and names that may be read are bound as long as nothing has
gone wrong. -/
structure Holds (clean : Prop) (s : Store) (scope : Bindings Bool) (k : Nat) : Prop where
  known : k < s.nextScope
  absent : ∀ name, IsImplicit name → scope.contains name = false → s.own? k name = none
  this : scope.contains "this" = true → ∃ object, s.own? k "this" = some (.object object)
  super : scope.contains "super" = true → ∃ cls, s.own? k "super" = some (.cls cls)
  bound : clean → ∀ name, scope.get? name = some true → (s.own? k name).isSome

/-- The scopes from `k` outwards are the given ones. -/
def Fits (clean : Prop) (s : Store) (Γ : Scopes) (k : Nat) : Prop := Chain (Holds clean s) s Γ k

section Fits

variable {clean clean' : Prop} {s s' : Store} {Γ : Scopes} {scope : Bindings Bool} {k : Nat}

theorem Holds.mono (h : Holds clean s scope k) (hgrows : Grows s s') (hclean : clean' → clean) :
    Holds clean' s' scope k where
  known := Nat.lt_of_lt_of_le h.known hgrows.size
  absent name hname hnot := (hgrows.implicit k name hname h.known).trans (h.absent name hname hnot)
  this hthis := (h.this hthis).imp fun _ => hgrows.keeps (.inl rfl)
  super hsuper := (h.super hsuper).imp fun _ => hgrows.keeps (.inr rfl)
  bound hc name hname := hgrows.owned k name (h.bound (hclean hc) name hname)

theorem Fits.mono (h : Fits clean s Γ k) (hgrows : Grows s s') (hclean : clean' → clean) :
    Fits clean' s' Γ k :=
  Chain.mono (fun _ _ hheld => hheld.mono hgrows hclean) (fun _ _ => hgrows.link) h

theorem Fits.grow (h : Fits clean s Γ k) (hgrows : Grows s s') : Fits clean s' Γ k :=
  h.mono hgrows id

/-- Nothing is asked of names once something has gone wrong. -/
theorem Fits.shape (h : Fits clean s Γ k) : Fits False s Γ k := h.mono (.refl s) False.elim

theorem Holds.insert (h : Holds clean s scope k) {name : String} (hname : ¬IsImplicit name)
    {readable : Bool} (hbound : clean → readable = true → (s.own? k name).isSome) :
    Holds clean s (scope.insert name readable) k where
  known := h.known
  absent other hother hnot := by
    have hne : other ≠ name := fun heq => hname (heq ▸ hother)
    exact h.absent other hother (by simpa [Bindings.contains, hne] using hnot)
  this hthis := by
    have hne : "this" ≠ name := fun heq => hname (.inl heq.symm)
    exact h.this (by simpa [Bindings.contains, hne] using hthis)
  super hsuper := by
    have hne : "super" ≠ name := fun heq => hname (.inr heq.symm)
    exact h.super (by simpa [Bindings.contains, hne] using hsuper)
  bound hclean other hother := by
    rw [Bindings.get?_insert] at hother
    split at hother
    next heq =>
      subst heq
      exact hbound hclean (by simpa using hother)
    next => exact h.bound hclean other hother

/-- A name is marked; if it may be read, it has to be bound. -/
theorem Fits.mark (h : Fits clean s Γ k) {name : Token} (hname : name.IsPlain) {readable : Bool}
    (hbound : clean → readable = true → Γ ≠ [] → (s.own? k name.lexeme).isSome) :
    Fits clean s (Γ.mark name.lexeme readable) k := by
  cases Γ with
  | nil => exact h
  | cons scope Γ =>
    obtain ⟨hne, hheld, houter⟩ := h
    refine ⟨hne, hheld.insert (not_isImplicit hname) fun hc hr => ?_, houter⟩
    exact hbound hc hr (by simp)

theorem Fits.distance (h : Fits clean s Γ k) {name : String} {d : Nat}
    (hd : Γ.distance? name = some d) :
    ∃ scope j, Γ[d]? = some scope ∧ scope.contains name = true ∧ s.scopeAt? k d = some j ∧
      j ≠ globalScope ∧ Holds clean s scope j := by
  obtain ⟨hlt, hcontains, -⟩ := List.findIdx?_eq_some_iff_getElem.1 hd
  have hscope : Γ[d]? = some Γ[d] := by simp [hlt]
  obtain ⟨j, hj, hne, hheld⟩ := Chain.scopeAt h hscope
  exact ⟨Γ[d], j, hscope, hcontains, hj, hne, hheld⟩

/-- A name that may be read is bound at its distance. -/
theorem Fits.readable (h : Fits clean s Γ k) (hclean : clean) {name : String} {d : Nat}
    (hd : Γ.distance? name = some d) (hread : Γ.Readable name) :
    ∃ v, s.valueAt? k d name = some v := by
  obtain ⟨scope, j, hscope, -, hj, -, hheld⟩ := h.distance hd
  obtain ⟨v, hv⟩ := Option.isSome_iff_exists.1 (hheld.bound hclean name (hread d scope hd hscope))
  exact ⟨v, by simp [valueAt?, hj, hv]⟩

theorem Fits.this (h : Fits clean s Γ k) {d : Nat} (hd : Γ.distance? "this" = some d) :
    ∃ object, s.valueAt? k d "this" = some (.object object) := by
  obtain ⟨scope, j, -, hcontains, hj, -, hheld⟩ := h.distance hd
  obtain ⟨object, hobject⟩ := hheld.this hcontains
  exact ⟨object, by simp [valueAt?, hj, hobject]⟩

theorem Fits.super (h : Fits clean s Γ k) {d : Nat} (hd : Γ.distance? "super" = some d) :
    ∃ cls, s.valueAt? k d "super" = some (.cls cls) := by
  obtain ⟨scope, j, -, hcontains, hj, -, hheld⟩ := h.distance hd
  obtain ⟨cls, hcls⟩ := hheld.super hcontains
  exact ⟨cls, by simp [valueAt?, hj, hcls]⟩

end Fits

end ClassScript.Store
