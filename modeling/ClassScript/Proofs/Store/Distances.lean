import ClassScript.Proofs.Store.Links

/-! # Along a chain and at a distance

A name can be looked up along the chain of scopes, or in the one scope at a known distance.  In all
stores that come about by making scopes and by binding names in them, both find the same: a look-up
along the chain is one at the distance of the innermost scope that has the name.
-/
namespace ClassScript.Store

variable {s s' : Store} {k j d outer : Nat} {name : String} {v : Value}

/-- The innermost scope that has a name, from `k` outwards: it is `d` links away. -/
structure Nearest (s : Store) (k : Nat) (name : String) (d j : Nat) : Prop where
  scope : s.scopeAt? k d = some j
  own : (s.own? j name).isSome
  least : ∀ i < d, ∀ m, s.scopeAt? k i = some m → s.own? m name = none

/-- What one scope binds one name to has changed, and nothing else. -/
structure Rebinds (s s' : Store) (j : Nat) (name : String) (v : Value) : Prop where
  bound : s'.own? j name = some v
  others : ∀ k other, k ≠ j ∨ other ≠ name → s'.own? k other = s.own? k other
  links : ∀ k, (s'.scope k).enclosing = (s.scope k).enclosing
  size : s'.nextScope = s.nextScope
  rest : s' = { s with scopes := s'.scopes }

namespace Nearest

theorem here (h : (s.own? k name).isSome) : s.Nearest k name 0 k :=
  ⟨rfl, h, fun i hi => absurd hi (Nat.not_lt_zero i)⟩

/-- A scope that does not have the name is passed. -/
theorem outward (hnone : s.own? k name = none) (hlink : (s.scope k).enclosing = some outer)
    (h : s.Nearest outer name d j) : s.Nearest k name (d + 1) j where
  scope := by rw [scopeAt?, hlink, Option.bind_some, h.scope]
  own := h.own
  least i hi m hm := by
    cases i with
    | zero =>
      obtain rfl : k = m := Option.some.inj hm
      exact hnone
    | succ i =>
      rw [scopeAt?, hlink, Option.bind_some] at hm
      exact h.least i (by omega) m hm

theorem cases (h : s.Nearest k name d j) :
    (d = 0 ∧ j = k ∧ (s.own? k name).isSome) ∨
      ∃ n outer, d = n + 1 ∧ s.own? k name = none ∧ (s.scope k).enclosing = some outer ∧
        s.Nearest outer name n j := by
  cases d with
  | zero =>
    obtain rfl : k = j := Option.some.inj h.scope
    exact .inl ⟨rfl, rfl, h.own⟩
  | succ n =>
    obtain ⟨outer, houter, hscope⟩ := Option.bind_eq_some_iff.1 h.scope
    refine .inr ⟨n, outer, rfl, h.least 0 (Nat.succ_pos n) k rfl, houter, hscope, h.own, ?_⟩
    intro i hi m hm
    exact h.least (i + 1) (by omega) m (by rw [scopeAt?, houter, Option.bind_some, hm])

end Nearest

/-- If some scope of a chain has a name, one of them is the innermost. -/
theorem exists_nearest (hscope : s.scopeAt? k d = some j) (hown : (s.own? j name).isSome) :
    ∃ d' j', s.Nearest k name d' j' := by
  induction d generalizing k with
  | zero =>
    obtain rfl : k = j := Option.some.inj hscope
    exact ⟨0, k, .here hown⟩
  | succ d ih =>
    obtain ⟨outer, houter, hrest⟩ := Option.bind_eq_some_iff.1 hscope
    cases hk : s.own? k name with
    | some w => exact ⟨0, k, .here (by rw [hk]; rfl)⟩
    | none =>
      obtain ⟨d', j', hnearest⟩ := ih hrest
      exact ⟨d' + 1, j', hnearest.outward hk houter⟩

/-- The owner of a name is the innermost scope that has it. -/
theorem Descends.owner?_eq_some (h : s.Descends) :
    s.owner? k name = some j ↔ ∃ d, s.Nearest k name d j := by
  induction k using Nat.strongRecOn with
  | ind k ih =>
    rw [h.owner?_eq]
    constructor
    · intro howner
      split at howner
      next hown =>
        obtain rfl : k = j := Option.some.inj howner
        exact ⟨0, .here hown⟩
      next hnone =>
        obtain ⟨outer, houter, hrest⟩ := Option.bind_eq_some_iff.1 howner
        obtain ⟨d, hnearest⟩ := (ih outer (h k outer houter)).1 hrest
        exact ⟨d + 1, hnearest.outward (by simpa using hnone) houter⟩
    · rintro ⟨d, hnearest⟩
      obtain ⟨-, rfl, hown⟩ | ⟨n, outer, -, hnone, houter, hrest⟩ := hnearest.cases
      · rw [if_pos hown]
      · rw [hnone, if_neg (by simp), houter, Option.bind_some]
        exact (ih outer (h k outer houter)).2 ⟨n, hrest⟩

/-- Binding a name that the scope has. -/
theorem rebinds_define (hown : (s.own? j name).isSome) :
    s.Rebinds (s.define j name v) j name v where
  bound := by
    obtain ⟨w, hw⟩ := Option.isSome_iff_exists.1 hown
    rw [own?_define, if_pos ⟨rfl, lt_of_own? hw, rfl⟩]
  others k other hne := by
    rw [own?_define, if_neg]
    rintro ⟨hk, -, hother⟩
    exact hne.elim (· hk) (· hother)
  links k := enclosing_define s j name v k
  size := nextScope_define s j name v
  rest := rfl

theorem orUndefined_eq_ok {α : Type} {name : Token} {found : Option α} {a : α} :
    orUndefined name found = .ok a ↔ found = some a := by
  cases found <;> simp [orUndefined]

/-- A look-up fails for one reason only, on the line of its name. -/
theorem orUndefined_eq_error {α : Type} {name : Token} {found : Option α} {fault : Fault}
    (h : orUndefined name found = .error fault) :
    fault = .runtime name.line (.undefinedVariable name.lexeme) := by
  cases found with
  | none => exact (Except.error.inj h).symm
  | some a => cases h

section Nearest

variable {name : Token}

/-- At the distance of the innermost scope that has a name, its value is found, and along the chain
the same. -/
theorem Nearest.reads (h : s.Nearest k name.lexeme d j) (hs : s.Descends) :
    ∃ w, s.own? j name.lexeme = some w ∧ s.value k name = .ok w ∧ s.valueAt k d name = .ok w := by
  obtain ⟨w, hw⟩ := Option.isSome_iff_exists.1 h.own
  refine ⟨w, hw, orUndefined_eq_ok.2 ?_, orUndefined_eq_ok.2 ?_⟩
  · rw [value?, hs.owner?_eq_some.2 ⟨d, h⟩, Option.bind_some, hw]
  · rw [valueAt?, h.scope, Option.bind_some, hw]

/-- Rebinding along the chain is rebinding at the distance of the innermost scope. -/
theorem Nearest.rebinds (h : s.Nearest k name.lexeme d j) (hs : s.Descends) (v : Value) :
    ∃ s', s.rebind k name v = .ok s' ∧ s.rebindAt k d name v = .ok s' ∧
      s.Rebinds s' j name.lexeme v := by
  refine ⟨s.define j name.lexeme v, orUndefined_eq_ok.2 ?_, orUndefined_eq_ok.2 ?_,
    rebinds_define h.own⟩
  · rw [rebind?, hs.owner?_eq_some.2 ⟨d, h⟩, Option.map_some]
  · rw [rebindAt?, holderAt?, h.scope, Option.filter_some, if_pos h.own, Option.map_some]

theorem Descends.value_eq_ok (hs : s.Descends) :
    (∃ w, s.value k name = .ok w) ↔ ∃ d j, s.Nearest k name.lexeme d j := by
  constructor
  · rintro ⟨w, hw⟩
    obtain ⟨j, hj, -⟩ := Option.bind_eq_some_iff.1 (orUndefined_eq_ok.1 hw)
    obtain ⟨d, hnearest⟩ := hs.owner?_eq_some.1 hj
    exact ⟨d, j, hnearest⟩
  · rintro ⟨d, j, hnearest⟩
    obtain ⟨w, -, hw, -⟩ := hnearest.reads hs
    exact ⟨w, hw⟩

theorem Descends.rebind_eq_ok (hs : s.Descends) :
    (∃ s', s.rebind k name v = .ok s') ↔ ∃ d j, s.Nearest k name.lexeme d j := by
  constructor
  · rintro ⟨s', hs'⟩
    obtain ⟨j, hj, -⟩ := Option.map_eq_some_iff.1 (orUndefined_eq_ok.1 hs')
    obtain ⟨d, hnearest⟩ := hs.owner?_eq_some.1 hj
    exact ⟨d, j, hnearest⟩
  · rintro ⟨d, j, hnearest⟩
    obtain ⟨s', hs', -⟩ := hnearest.rebinds hs v
    exact ⟨s', hs'⟩

theorem valueAt_eq_ok :
    (∃ w, s.valueAt k d name = .ok w) ↔
      ∃ j, s.scopeAt? k d = some j ∧ (s.own? j name.lexeme).isSome := by
  simp only [valueAt, orUndefined_eq_ok, valueAt?, Option.bind_eq_some_iff,
    Option.isSome_iff_exists]
  grind

theorem rebindAt_eq_ok :
    (∃ s', s.rebindAt k d name v = .ok s') ↔
      ∃ j, s.scopeAt? k d = some j ∧ (s.own? j name.lexeme).isSome := by
  simp only [rebindAt, orUndefined_eq_ok, rebindAt?, holderAt?, Option.map_eq_some_iff,
    Option.filter_eq_some_iff]
  grind

end Nearest

/-! ### Stores of scopes -/

/-- What can be done with the scopes of a store. -/
inductive Operation where
  | root
  | inside (outer : Nat)
  | define (scope : Nat) (name : String) (value : Value)
  | read (scope : Nat) (name : Token)
  | readAt (scope distance : Nat) (name : Token)
  | rebind (scope : Nat) (name : Token) (value : Value)
  | rebindAt (scope distance : Nat) (name : Token) (value : Value)

namespace Operation

/-- The scope that is there already. -/
def scope? : Operation → Option Nat
  | root => none
  | inside scope | define scope _ _ | read scope _ | readAt scope _ _ | rebind scope _ _
  | rebindAt scope _ _ _ => some scope

/-- The name that is looked up. -/
def name? : Operation → Option Token
  | root | inside _ | define .. => none
  | read _ name | readAt _ _ name | rebind _ name _ | rebindAt _ _ name _ => some name

end Operation

/-- The next store, if there is one. -/
def replace (s : Store) : Except Fault Store → Except Fault (Option Value) × Store
  | .ok next => (.ok none, next)
  | .error fault => (.error fault, s)

/-- The answer to an operation, and the store behind it. -/
def perform (s : Store) : Operation → Except Fault (Option Value) × Store
  | .root => (.ok none, s.addScope none)
  | .inside outer => (.ok none, s.addScope (some outer))
  | .define scope name value => (.ok none, s.define scope name value)
  | .read scope name => ((s.value scope name).map some, s)
  | .readAt scope distance name => ((s.valueAt scope distance name).map some, s)
  | .rebind scope name value => s.replace (s.rebind scope name value)
  | .rebindAt scope distance name value => s.replace (s.rebindAt scope distance name value)

/-- Stores that come about by operations on the scopes that are there. -/
inductive Built : Store → Prop where
  | empty : Built {}
  | perform {s : Store} {o : Operation} (hs : Built s)
      (hscope : ∀ k, o.scope? = some k → k < s.nextScope) : Built (s.perform o).2

theorem replace_cases {result : Except Fault Store}
    (h : ∀ next, result = .ok next → ∃ k name v, next = s.define k name v) :
    (s.replace result).2 = s ∨ ∃ k name v, (s.replace result).2 = s.define k name v := by
  cases result with
  | error fault => exact .inl rfl
  | ok next => exact .inr (h next rfl)

/-- An operation makes a scope, binds a name or leaves the store alone. -/
theorem perform_cases (s : Store) (o : Operation) :
    (∃ enclosing, (s.perform o).2 = s.addScope enclosing ∧
      ∀ outer, enclosing = some outer → o.scope? = some outer) ∨
    (s.perform o).2 = s ∨ ∃ k name v, (s.perform o).2 = s.define k name v := by
  cases o with
  | root => exact .inl ⟨none, rfl, fun _ houter => nomatch houter⟩
  | inside outer => exact .inl ⟨some outer, rfl, fun _ houter => houter⟩
  | define k name v => exact .inr (.inr ⟨k, name, v, rfl⟩)
  | read k name | readAt k d name => exact .inr (.inl rfl)
  | rebind k name v =>
    refine .inr (replace_cases fun next hnext => ?_)
    obtain ⟨j, -, rfl⟩ := Option.map_eq_some_iff.1 (orUndefined_eq_ok.1 hnext)
    exact ⟨j, name.lexeme, v, rfl⟩
  | rebindAt k d name v =>
    refine .inr (replace_cases fun next hnext => ?_)
    obtain ⟨j, -, rfl⟩ := Option.map_eq_some_iff.1 (orUndefined_eq_ok.1 hnext)
    exact ⟨j, name.lexeme, v, rfl⟩

theorem Descends.addScope (hs : s.Descends) {enclosing : Option Nat}
    (h : ∀ outer, enclosing = some outer → outer < s.nextScope) :
    (s.addScope enclosing).Descends := by
  intro k outer hlink
  rw [scope_addScope] at hlink
  split at hlink
  next heq => exact heq ▸ h outer hlink
  next => exact hs k outer hlink

theorem Built.descends (h : s.Built) : s.Descends := by
  induction h with
  | empty => exact fun k outer hlink => nomatch hlink
  | @perform s o _ hscope ih =>
    obtain ⟨enclosing, hstore, houter⟩ | hstore | ⟨k, name, v, hstore⟩ := s.perform_cases o
    · rw [hstore]
      exact ih.addScope fun outer heq => hscope outer (houter outer heq)
    · rwa [hstore]
    · rw [hstore]
      intro k' outer hlink
      rw [enclosing_define] at hlink
      exact ih k' outer hlink

theorem replace_error {result : Except Fault Store} {fault : Fault}
    (h : (s.replace result).1 = .error fault) :
    (s.replace result).2 = s ∧ result = .error fault := by
  cases result with
  | error found => exact ⟨rfl, congrArg _ (Except.error.inj h)⟩
  | ok next => cases h

theorem map_error {α β : Type} {f : α → β} {found : Except Fault α} {fault : Fault}
    (h : found.map f = .error fault) : found = .error fault := by
  cases found with
  | error found => exact congrArg _ (Except.error.inj h)
  | ok a => cases h

/-- Only look-ups fail.  They leave the store alone and name the line of their name. -/
theorem perform_error {o : Operation} {fault : Fault} (h : (s.perform o).1 = .error fault) :
    (s.perform o).2 = s ∧ ∃ name, o.name? = some name ∧
      fault = .runtime name.line (.undefinedVariable name.lexeme) := by
  cases o with
  | root | inside outer | define k name v => cases h
  | read k name | readAt k d name =>
    exact ⟨rfl, name, rfl, orUndefined_eq_error (map_error h)⟩
  | rebind k name v | rebindAt k d name v =>
    obtain ⟨hstore, hfault⟩ := replace_error h
    exact ⟨hstore, name, rfl, orUndefined_eq_error hfault⟩

/-- Looking up along a chain and at a distance agree.  A name is found along the chain if and only
if a scope of the chain has it, and then just what is found at the distance of the innermost one; it
can be rebound in the same cases, with the effect of rebinding it at that distance, which is to
change this one binding and nothing else.  At a distance a name is found if there is a scope that
has it.  A look-up that fails leaves the store as it is and is reported on the line of its name. -/
theorem chain_agrees (h : s.Built) (k : Nat) (name : Token) (v : Value) :
    ((∃ w, s.value k name = .ok w) ↔
      ∃ d j, s.scopeAt? k d = some j ∧ (s.own? j name.lexeme).isSome) ∧
    ((∃ w, s.value k name = .ok w) ↔ ∃ d j, s.Nearest k name.lexeme d j) ∧
    ((∃ s', s.rebind k name v = .ok s') ↔ ∃ w, s.value k name = .ok w) ∧
    (∀ d j, s.Nearest k name.lexeme d j →
      (∃ w, s.own? j name.lexeme = some w ∧ s.value k name = .ok w ∧ s.valueAt k d name = .ok w) ∧
      ∃ s', s.rebind k name v = .ok s' ∧ s.rebindAt k d name v = .ok s' ∧
        s.Rebinds s' j name.lexeme v) ∧
    (∀ d, ((∃ w, s.valueAt k d name = .ok w) ↔
        ∃ j, s.scopeAt? k d = some j ∧ (s.own? j name.lexeme).isSome) ∧
      ((∃ s', s.rebindAt k d name v = .ok s') ↔ ∃ w, s.valueAt k d name = .ok w)) ∧
    ∀ o fault, (s.perform o).1 = .error fault →
      (s.perform o).2 = s ∧ ∃ sought, o.name? = some sought ∧
        fault = .runtime sought.line (.undefinedVariable sought.lexeme) := by
  have hs := h.descends
  refine ⟨?_, hs.value_eq_ok, hs.rebind_eq_ok.trans hs.value_eq_ok.symm, fun d j hnearest => ?_,
    fun d => ⟨valueAt_eq_ok, rebindAt_eq_ok.trans valueAt_eq_ok.symm⟩,
    fun o fault herror => perform_error herror⟩
  · rw [hs.value_eq_ok]
    constructor
    · rintro ⟨d, j, hnearest⟩
      exact ⟨d, j, hnearest.scope, hnearest.own⟩
    · rintro ⟨d, j, hscope, hown⟩
      exact exists_nearest hscope hown
  · exact ⟨hnearest.reads hs, hnearest.rebinds hs v⟩

/-- The middle one of three scopes has a name that the outermost one has too. -/
theorem chain_agrees_shadowed :
    let s : Store := (((((Store.addScope {} none).define 0 "a" .nil).addScope (some 0)).define 1 "a"
      (.bool false)).addScope (some 1)).define 2 "b" .nil
    let name := Token.named "a" 7
    s.Built ∧ s.value 2 name = .ok (.bool false) ∧ s.valueAt 2 1 name = .ok (.bool false) ∧
      ∃ s', s.rebind 2 name (.bool true) = .ok s' ∧ s'.own? 1 "a" = some (.bool true) ∧
        s'.own? 0 "a" = some .nil := by
  intro s name
  have hs : s.Built :=
    .perform (o := .define 2 "b" .nil) (.perform (o := .inside 1) (.perform
      (o := .define 1 "a" (.bool false)) (.perform (o := .inside 0) (.perform
        (o := .define 0 "a" .nil) (.perform (o := .root) .empty (by decide)) (by decide))
          (by decide)) (by decide)) (by decide)) (by decide)
  have hnearest : s.Nearest 2 "a" 1 1 :=
    .outward (by decide) (by decide) (.here (by decide))
  obtain ⟨-, -, -, hfound, -, -⟩ := chain_agrees hs 2 name (.bool true)
  obtain ⟨⟨w, hw, hvalue, hvalueAt⟩, s', hrebind, -, hrebinds⟩ := hfound 1 1 hnearest
  have hown : s.own? 1 "a" = some (.bool false) := by decide
  obtain rfl : Value.bool false = w := Option.some.inj (hown.symm.trans hw)
  refine ⟨hs, hvalue, hvalueAt, s', hrebind, hrebinds.bound, ?_⟩
  rw [hrebinds.others 0 "a" (.inl (by decide))]
  decide

end ClassScript.Store
