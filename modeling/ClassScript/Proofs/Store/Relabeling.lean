import ClassScript.Proofs.Tree.Relabeling
import ClassScript.Store.Lookup

/-! # Relabelling the store

Code in the store is relabelled like any other code.  Everything that is looked up in the store is
found at the same place, with its code relabelled.
-/
namespace ClassScript

namespace Bindings

variable {α β : Type}

def map (f : α → β) (b : Bindings α) : Bindings β :=
  ⟨b.entries.map fun entry => (entry.1, f entry.2)⟩

@[simp] theorem get?_map (f : α → β) (b : Bindings α) (name : String) :
    (b.map f).get? name = (b.get? name).map f := by
  obtain ⟨entries⟩ := b
  simp only [map, get?]
  induction entries with
  | nil => rfl
  | cons entry rest ih =>
    rw [List.map_cons, getEntry?, getEntry?, ih]
    split <;> rfl

@[simp] theorem map_insert (f : α → β) (b : Bindings α) (name : String) (value : α) :
    (b.insert name value).map f = (b.map f).insert name (f value) := by
  obtain ⟨entries⟩ := b
  simp only [map, insert, mk.injEq]
  induction entries with
  | nil => rfl
  | cons entry rest ih =>
    rw [List.map_cons, insertEntry, insertEntry, ← ih]
    split <;> rfl

theorem map_eq_self {f : α → α} {b : Bindings α} (h : ∀ name v, (name, v) ∈ b.entries → f v = v) :
    b.map f = b := by
  obtain ⟨entries⟩ := b
  simp only [map, mk.injEq]
  refine List.map_congr_left (fun entry hentry => ?_) |>.trans (List.map_id entries)
  rw [h entry.1 entry.2 hentry]
  rfl

end Bindings

section Relabel

variable (ρ : Relabeling)

def Fault.relabel : Fault → Fault
  | .runtime line cause => .runtime (ρ.line line) cause
  | .sink message => .sink message

/-- A result whose fault, if it is one, is relabelled. -/
def Fault.relabelResult {α : Type} : Except Fault α → Except Fault α
  | .ok a => .ok a
  | .error f => .error (f.relabel ρ)

def Closure.relabel (c : Closure) : Closure := { c with declaration := c.declaration.relabel ρ }

def Class.relabel (c : Class) : Class := { c with methods := c.methods.map (Closure.relabel ρ) }

def Store.relabel (s : Store) : Store :=
  { s with
    functions := s.functions.map (Closure.relabel ρ)
    classes := s.classes.map (Class.relabel ρ) }

end Relabel

variable {ρ : Relabeling}

@[simp] theorem Fault.relabel_ofToken (t : Token) (cause : RuntimeCause) :
    (Fault.ofToken t cause).relabel ρ = .ofToken (t.relabel ρ) cause := rfl

@[simp] theorem Fault.relabel_undefined (t : Token) :
    (Fault.undefined t).relabel ρ = .undefined (t.relabel ρ) := rfl

@[simp] theorem Closure.relabel_declaration (c : Closure) :
    (c.relabel ρ).declaration = c.declaration.relabel ρ := rfl

@[simp] theorem Closure.relabel_scope (c : Closure) : (c.relabel ρ).scope = c.scope := rfl

@[simp] theorem Closure.relabel_isInitializer (c : Closure) :
    (c.relabel ρ).isInitializer = c.isInitializer := rfl

theorem Closure.relabel_default : (default : Closure).relabel ρ = default := by
  have hname : (Token.named "" 0).relabel ρ = Token.named "" 0 := by
    rw [Token.relabel, Token.named, ρ.line_zero]
  change Closure.mk (.mk ((Token.named "" 0).relabel ρ) [] []) _ _ = _
  rw [hname]
  rfl

namespace Store

variable (s : Store)

@[simp] theorem relabel_scope (id : Nat) : (s.relabel ρ).scope id = s.scope id := rfl

@[simp] theorem relabel_own? (id : Nat) (name : String) :
    (s.relabel ρ).own? id name = s.own? id name := rfl

@[simp] theorem relabel_native (id : Nat) : (s.relabel ρ).native id = s.native id := rfl

@[simp] theorem relabel_object (id : Nat) : (s.relabel ρ).object id = s.object id := rfl

@[simp] theorem relabel_nextScope : (s.relabel ρ).nextScope = s.nextScope := rfl

@[simp] theorem relabel_nextObject : (s.relabel ρ).nextObject = s.nextObject := rfl

@[simp] theorem relabel_nextFunction : (s.relabel ρ).nextFunction = s.nextFunction := by
  simp [nextFunction, relabel]

@[simp] theorem relabel_nextClass : (s.relabel ρ).nextClass = s.nextClass := by
  simp [nextClass, relabel]

@[simp] theorem relabel_closure (id : Nat) :
    (s.relabel ρ).closure id = (s.closure id).relabel ρ := by
  simp only [closure, relabel, Array.getD_eq_getD_getElem?, Array.getElem?_map]
  cases s.functions[id]? with
  | none => exact Closure.relabel_default.symm
  | some c => rfl

@[simp] theorem relabel_classOf (id : Nat) :
    (s.relabel ρ).classOf id = (s.classOf id).relabel ρ := by
  simp only [classOf, relabel, Array.getD_eq_getD_getElem?, Array.getElem?_map]
  cases s.classes[id]? with
  | none => rfl
  | some c => rfl

@[simp] theorem relabel_scopeAt? (id d : Nat) : (s.relabel ρ).scopeAt? id d = s.scopeAt? id d := by
  induction d generalizing id with
  | zero => rfl
  | succ d ih => simp [scopeAt?, ih]

@[simp] theorem relabel_valueAt? (id d : Nat) (name : String) :
    (s.relabel ρ).valueAt? id d name = s.valueAt? id d name := by
  simp [valueAt?]

@[simp] theorem relabel_holderAt? (id d : Nat) (name : String) :
    (s.relabel ρ).holderAt? id d name = s.holderAt? id d name := by
  simp [holderAt?]

@[simp] theorem relabel_valueAt (id d : Nat) (name : Token) :
    (s.relabel ρ).valueAt id d (name.relabel ρ) =
      Fault.relabelResult ρ (s.valueAt id d name) := by
  rw [valueAt, valueAt, relabel_valueAt?, Token.relabel_lexeme]
  cases s.valueAt? id d name.lexeme <;> rfl

@[simp] theorem relabel_method? (cls : Nat) (name : String) :
    (s.relabel ρ).method? cls name = (s.method? cls name).map (Closure.relabel ρ) := by
  have hwithin (n cls : Nat) : (s.relabel ρ).methodWithin? name n cls =
      (s.methodWithin? name n cls).map (Closure.relabel ρ) := by
    induction n generalizing cls with
    | zero => rfl
    | succ n ih =>
      rw [methodWithin?, methodWithin?, relabel_classOf, Class.relabel, Bindings.get?_map]
      cases (s.classOf cls).methods.get? name with
      | some c => rfl
      | none =>
        dsimp only [Option.map_none]
        cases (s.classOf cls).superclass with
        | none => rfl
        | some superclass => exact ih superclass
  exact hwithin _ _

@[simp] theorem relabel_classArity (cls : Nat) :
    (s.relabel ρ).classArity cls = s.classArity cls := by
  simp only [classArity, relabel_method?]
  cases s.method? cls initializerName <;> simp

@[simp] theorem relabel_textMethod? (id : Nat) :
    (s.relabel ρ).textMethod? id = (s.textMethod? id).map (Closure.relabel ρ) := by
  simp only [textMethod?, relabel_method?, relabel_object]
  cases s.method? (s.object id).cls textMethodName with
  | none => rfl
  | some c =>
    simp only [Option.map_some, Option.filter_some, Closure.relabel_declaration,
      FunctionDecl.relabel_arity]
    split <;> rfl

@[simp] theorem relabel_text (v : Value) : (s.relabel ρ).text v = s.text v := by
  cases v with
  | bool b => cases b <;> rfl
  | function id => simp [text]
  | cls id | object id => simp [text, Class.relabel]
  | _ => rfl

@[simp] theorem relabel_addScope (enclosing : Option Nat) :
    (s.addScope enclosing).relabel ρ = (s.relabel ρ).addScope enclosing := rfl

@[simp] theorem relabel_addObject (cls : Nat) :
    (s.addObject cls).relabel ρ = (s.relabel ρ).addObject cls := rfl

@[simp] theorem relabel_define (id : Nat) (name : String) (value : Value) :
    (s.define id name value).relabel ρ = (s.relabel ρ).define id name value := rfl

@[simp] theorem relabel_setField (id : Nat) (name : String) (value : Value) :
    (s.setField id name value).relabel ρ = (s.relabel ρ).setField id name value := rfl

@[simp] theorem relabel_addFunction (c : Closure) :
    (s.addFunction c).relabel ρ = (s.relabel ρ).addFunction (c.relabel ρ) := by
  simp [addFunction, relabel]

@[simp] theorem relabel_addClass (c : Class) :
    (s.addClass c).relabel ρ = (s.relabel ρ).addClass (c.relabel ρ) := by
  simp [addClass, relabel]

/-- The store is what it was if the labels of all its code are. -/
theorem relabel_eq_self {s : Store} (hline : ρ.KeepsLines)
    (hfunctions : ∀ id, ∀ i ∈ (s.closure id).declaration.ids, ρ.number i = i)
    (hmethods : ∀ id name c, (name, c) ∈ (s.classOf id).methods.entries →
      ∀ i ∈ c.declaration.ids, ρ.number i = i) : s.relabel ρ = s := by
  have hclosure (c : Closure) (h : ∀ i ∈ c.declaration.ids, ρ.number i = i) : c.relabel ρ = c := by
    rw [Closure.relabel, FunctionDecl.relabel_eq_self hline _ h]
  have hfunctions' : s.functions.map (Closure.relabel ρ) = s.functions := by
    apply Array.ext (by simp)
    intro i hi hi'
    have hid : s.closure i = s.functions[i] := by simp [closure, hi']
    rw [Array.getElem_map, ← hid, hclosure _ (hfunctions i)]
  have hclasses' : s.classes.map (Class.relabel ρ) = s.classes := by
    apply Array.ext (by simp)
    intro i hi hi'
    have hid : s.classOf i = s.classes[i] := by simp [classOf, hi']
    rw [Array.getElem_map, ← hid, Class.relabel,
      Bindings.map_eq_self fun name c hc => hclosure c (hmethods i name c hc)]
  rw [relabel, hfunctions', hclasses']

end Store

end ClassScript
