import ClassScript.Proofs.Renaming.Store
import Mathlib.Data.List.Forall2

/-! # Worlds that are alike

Reading and rebinding a reference, binding names and methods, printing and reporting do the same in
two worlds that are alike.  Only the name of an undefined variable may differ.
-/
namespace ClassScript

open Store (Marked Later)

/-- The same fault, or that the variable is undefined, under its old and its new name. -/
def Fault.Alike (ρ : Renaming) (f f' : Fault) : Prop :=
  f' = f ∨ ∃ line, f = .runtime line (.undefinedVariable ρ.old) ∧
    f' = .runtime line (.undefinedVariable ρ.new)

/-- The same report, or that the variable is undefined, under its old and its new name. -/
def Report.Alike (ρ : Renaming) (r r' : Report) : Prop :=
  r' = r ∨ ∃ line, r = .runtime line ("Undefined variable '" ++ ρ.old ++ "'.") ∧
    r' = .runtime line ("Undefined variable '" ++ ρ.new ++ "'.")

/-- The same result, or faults that are alike. -/
inductive Result.Alike (ρ : Renaming) {α : Type} : Except Fault α → Except Fault α → Prop where
  | ok (a : α) : Result.Alike ρ (.ok a) (.ok a)
  | error {f f' : Fault} (h : Fault.Alike ρ f f') : Result.Alike ρ (.error f) (.error f')

structure Log.Alike (ρ : Renaming) (log log' : Log) : Prop where
  reports : List.Forall₂ (Report.Alike ρ) log.reports.toList log'.reports.toList
  hadError : log'.hadError = log.hadError
  hadRuntimeError : log'.hadRuntimeError = log.hadRuntimeError

structure World.Alike (ρ : Renaming) (T : Tags) (w w' : World) : Prop where
  store : Store.Alike ρ T w.store w'.store
  distances : w.distances = ρ.distances
  distances' : w'.distances = ρ.distances
  output : w'.output = w.output
  clockReads : w'.clockReads = w.clockReads
  log : Log.Alike ρ w.log w'.log

variable {ρ : Renaming} {T : Tags} {w w' : World} {marks : List Bool}

theorem Fault.Alike.undefined (t : Token) (chosen : Bool) :
    Fault.Alike ρ (.undefined t) (.undefined (t.rename ρ chosen)) := by
  by_cases h : chosen = true ∧ t.lexeme = ρ.old
  · obtain ⟨rfl, hold⟩ := h
    refine .inr ⟨t.line, by rw [← hold]; rfl, ?_⟩
    rw [Fault.undefined, Fault.ofToken, Token.rename, hold, Renaming.name_true_old]
  · left
    rw [Token.rename, Renaming.name, if_neg h]

theorem Fault.Alike.report {f f' : Fault} (h : Fault.Alike ρ f f') :
    Report.Alike ρ f.report f'.report ∧ f'.report.isRuntime = f.report.isRuntime := by
  rcases h with rfl | ⟨line, rfl, rfl⟩
  · exact ⟨.inl rfl, rfl⟩
  · exact ⟨.inr ⟨line, rfl, rfl⟩, rfl⟩

theorem Log.Alike.add {log log' : Log} (h : Log.Alike ρ log log') {r r' : Report}
    (hr : Report.Alike ρ r r') (hruntime : r'.isRuntime = r.isRuntime) :
    Log.Alike ρ (log.add r) (log'.add r') where
  reports := by
    simp only [Log.add, Array.toList_push]
    exact List.rel_append h.reports (.cons hr .nil)
  hadError := by simp only [Log.add, h.hadError, hruntime]
  hadRuntimeError := by simp only [Log.add, h.hadRuntimeError, hruntime]

namespace World.Alike

theorem report (h : World.Alike ρ T w w') {r r' : Report} (hr : Report.Alike ρ r r')
    (hruntime : r'.isRuntime = r.isRuntime) : World.Alike ρ T (w.report r) (w'.report r') :=
  ⟨h.store, h.distances, h.distances', h.output, h.clockReads, h.log.add hr hruntime⟩

theorem withStore {T' : Tags} {s s' : Store} (h : World.Alike ρ T w w')
    (hs : Store.Alike ρ T' s s') :
    World.Alike ρ T' { w with store := s } { w' with store := s' } :=
  ⟨hs, h.distances, h.distances', h.output, h.clockReads, h.log⟩

/-- The tag of the scope that a reference leads to. -/
theorem leads (h : World.Alike ρ T w w') {k : Nat} (hk : Marked T w.store marks k)
    {ref : Reference} {d : Nat} (hd : w.distance? ref = some d) (j : Nat)
    (hj : w.store.scopeAt? k d = some j) : T j = ρ.leads marks ref.id := by
  have hid : ρ.distances[ref.id]? = some d := by
    rw [← h.distances]
    exact hd
  rw [hk.target ⟨h.store.global.1, h.store.global.2.2⟩ d j hj, Renaming.leads, hid]
  rfl

theorem leads_global (h : World.Alike ρ T w w') {ref : Reference} (hd : w.distance? ref = none) :
    ρ.leads marks ref.id = false := by
  have hid : ρ.distances[ref.id]? = none := by
    rw [← h.distances]
    exact hd
  rw [Renaming.leads, hid]
  rfl

theorem distance?_eq (h : World.Alike ρ T w w') {ref ref' : Reference} (hid : ref'.id = ref.id) :
    w'.distance? ref' = w.distance? ref := by
  rw [World.distance?, World.distance?, h.distances, h.distances', hid]

theorem orUndefined {v v' : Option Value} (t : Token) (chosen : Bool) (h : v' = v) :
    Result.Alike ρ (Store.orUndefined t v) (Store.orUndefined (t.rename ρ chosen) v') := by
  subst h
  cases v' with
  | none => exact .error (.undefined t chosen)
  | some v => exact .ok v

theorem read (h : World.Alike ρ T w w') {k : Nat} (hk : Marked T w.store marks k)
    {ref : Reference} (hname : ref.name.lexeme ≠ ρ.new) :
    Result.Alike ρ (w.read k ref) (w'.read k (ref.rename ρ marks)) := by
  have hdistance : w'.distance? (ref.rename ρ marks) = w.distance? ref := h.distance?_eq rfl
  unfold World.read
  rw [hdistance]
  cases hd : w.distance? ref with
  | some d => exact orUndefined _ _ (h.store.valueAt? hname k d (h.leads hk hd))
  | none =>
    refine orUndefined _ _ (h.store.valueAt? hname globalScope 0 fun j hj => ?_)
    obtain rfl : globalScope = j := by simpa [Store.scopeAt?] using hj
    rw [h.leads_global hd]
    exact h.store.global.1

/-- A name that the renaming does not touch is found in every scope as it is. -/
theorem valueAt?_kept (h : World.Alike ρ T w w') {name : String} (hnew : name ≠ ρ.new)
    (hold : name ≠ ρ.old) (k d : Nat) :
    w'.store.valueAt? k d name = w.store.valueAt? k d name := by
  rw [Store.valueAt?, Store.valueAt?, h.store.scopeAt?]
  cases w.store.scopeAt? k d with
  | none => rfl
  | some j =>
    have hnames := h.store.names j name hnew
    rwa [Renaming.name_of_ne _ hold] at hnames

theorem read_kept (h : World.Alike ρ T w w') {ref : Reference} (hnew : ref.name.lexeme ≠ ρ.new)
    (hold : ref.name.lexeme ≠ ρ.old) (k : Nat) : w'.read k ref = w.read k ref := by
  unfold World.read
  rw [h.distance?_eq rfl]
  split
  · rw [Store.valueAt, Store.valueAt, h.valueAt?_kept hnew hold]
  · rw [Store.valueAt, Store.valueAt, h.valueAt?_kept hnew hold]

theorem target? (h : World.Alike ρ T w w') {k : Nat} (hk : Marked T w.store marks k)
    {ref : Reference} (hname : ref.name.lexeme ≠ ρ.new) :
    w'.target? k (ref.rename ρ marks) = w.target? k ref ∧
      ∀ j, w.target? k ref = some j → T j = ρ.leads marks ref.id := by
  have hdistance : w'.distance? (ref.rename ρ marks) = w.distance? ref := h.distance?_eq rfl
  unfold World.target?
  rw [hdistance]
  cases hd : w.distance? ref with
  | some d =>
    refine ⟨h.store.holderAt? hname k d (h.leads hk hd), fun j hj => ?_⟩
    exact h.leads hk hd j (Option.filter_eq_some_iff.1 hj).1
  | none =>
    have hglobal (j : Nat) (hj : w.store.scopeAt? globalScope 0 = some j) :
        T j = ρ.leads marks ref.id := by
      obtain rfl : globalScope = j := by simpa [Store.scopeAt?] using hj
      rw [h.leads_global hd]
      exact h.store.global.1
    exact ⟨h.store.holderAt? hname globalScope 0 hglobal,
      fun j hj => hglobal j (Option.filter_eq_some_iff.1 hj).1⟩

theorem define (h : World.Alike ρ T w w') (k : Nat) {name : String} (hname : name ≠ ρ.new)
    (v : Value) : World.Alike ρ T (w.define k name v) (w'.define k (ρ.name (T k) name) v) :=
  h.withStore (h.store.define k hname v)

/-- A name that is declared in a marked scope. -/
theorem declare (h : World.Alike ρ T w w') {k : Nat} (hk : Marked T w.store marks k) {t : Token}
    (ht : t.lexeme ≠ ρ.new) (v : Value) :
    World.Alike ρ T (w.define k t.lexeme v)
      (w'.define k (t.rename ρ (marks.headD false)).lexeme v) := by
  have htag : T k = marks.headD false := by
    rw [hk.target ⟨h.store.global.1, h.store.global.2.2⟩ 0 k rfl]
    cases marks <;> rfl
  have hdefine := h.define k ht v
  rwa [htag] at hdefine

theorem defineAll (h : World.Alike ρ T w w') (k : Nat) {names : List Token}
    (hnames : ∀ t ∈ names, t.lexeme ≠ ρ.new) (values : List Value) :
    World.Alike ρ T (w.defineAll k names values)
        (w'.defineAll k (names.map (Token.rename ρ (T k))) values) ∧
      Later T w.store T (w.defineAll k names values).store := by
  induction names generalizing w w' values with
  | nil => exact ⟨h, .refl _ _⟩
  | cons t names ih =>
    obtain ⟨ht, hnames⟩ := List.forall_mem_cons.1 hnames
    cases values with
    | nil => exact ⟨h, .refl _ _⟩
    | cons v values =>
      obtain ⟨halike, hlater⟩ := ih (h.define k ht v) hnames values
      exact ⟨halike, .trans (.define T w.store k t.lexeme v) hlater⟩

end World.Alike

/-- One more scope inside a marked one. -/
theorem Store.Marked.addScope {s : Store} {outer : Nat} (h : Marked T s marks outer)
    (hglobal : globalScope < s.nextScope) (chosen : Bool) :
    Marked (T.add s chosen) (s.addScope (some outer)) (chosen :: marks) s.nextScope := by
  refine ⟨Nat.ne_of_gt hglobal, ⟨by simp, if_pos rfl⟩, outer, ?_, ?_⟩
  · exact Store.enclosing_addScope_self s (some outer)
  · exact h.later (.addScope T s (some outer) chosen)

/-- A method that is bound to an instance. -/
theorem World.Alike.bindMethod (hρ : ρ.Proper) (h : World.Alike ρ T w w') {c c' : Closure}
    (hc : c.Alike ρ T w.store [false] c') (object : Nat) :
    ∃ T', Later T w.store T' (w.bindMethod c object).1.store ∧
      World.Alike ρ T' (w.bindMethod c object).1 (w'.bindMethod c' object).1 ∧
      (w.bindMethod c object).2.Alike ρ T' (w.bindMethod c object).1.store []
        (w'.bindMethod c' object).2 := by
  let T' := T.add w.store false
  have hadd := h.withStore (h.store.addScope (some c.scope) false)
  have hdefine := hadd.define w.store.nextScope hρ.new.1.symm (.object object)
  rw [hρ.name_this] at hdefine
  have hlater : Later T w.store T' (w.bindMethod c object).1.store :=
    .trans (.addScope T w.store (some c.scope) false) (.define T' _ _ _ _)
  refine ⟨T', hlater, ?_, ?_⟩
  · simp only [World.bindMethod, hc.scope, h.store.nextScope]
    exact hdefine
  · obtain ⟨marks, hmarked, hdeclaration⟩ := hc.declaration
    refine ⟨h.store.nextScope, hc.isInitializer, false :: marks, ?_, hdeclaration⟩
    exact (hmarked.addScope h.store.global.2.1 false).later (.define T' _ _ _ _)

theorem World.Alike.methodValue (hρ : ρ.Proper) (h : World.Alike ρ T w w') {c c' : Closure}
    (hc : c.Alike ρ T w.store [false] c') (object : Nat) :
    ∃ T', Later T w.store T' (w.methodValue c object).1.store ∧
      World.Alike ρ T' (w.methodValue c object).1 (w'.methodValue c' object).1 ∧
      (w'.methodValue c' object).2 = (w.methodValue c object).2 := by
  obtain ⟨T', hlater, halike, hbound⟩ := h.bindMethod hρ hc object
  refine ⟨T', .trans hlater (.ofScopes T' rfl), ?_, ?_⟩
  · exact halike.withStore (halike.store.addFunction hbound)
  · simp only [World.methodValue, halike.store.nextFunction]

theorem World.Alike.print (h : World.Alike ρ T w w') (host : Host) (text : String) :
    World.Alike ρ T (w.print host text).1 (w'.print host text).1 ∧
      (w'.print host text).2 = (w.print host text).2 := by
  simp only [World.print, h.output]
  exact ⟨⟨h.store, h.distances, h.distances', rfl, h.clockReads, h.log⟩, trivial⟩

theorem World.Alike.flush (h : World.Alike ρ T w w') (host : Host) :
    World.Alike ρ T (w.flush host) (w'.flush host) := by
  unfold World.flush
  rw [h.output]
  generalize w.output.flush host.sink = flushed
  obtain ⟨output, refusal⟩ := flushed
  have hsame : World.Alike ρ T { w with output } { w' with output } :=
    ⟨h.store, h.distances, h.distances', rfl, h.clockReads, h.log⟩
  cases refusal with
  | none => exact hsame
  | some message => exact hsame.report (.inl rfl) rfl

end ClassScript
