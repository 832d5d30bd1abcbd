import ClassScript.Evaluation.Run
import ClassScript.Proofs.Braces.World

/-! # Machines and braces

A machine that runs a program with braces has the same control and the same frames as one that runs
the program without them, and besides a frame for each pair of braces that it is inside.  One lemma
for each operation of the machine shows that it keeps two machines so.
-/
namespace ClassScript

open Twins (Later)

/-- Frames that leave the scope as it is and belong to no call. -/
inductive Frame.Nested (D D' : Distances) (σ : Nesting) : Frame → Frame → Prop where
  | unary {operator : Token} : Frame.Nested D D' σ (.unary operator) (.unary operator)
  | left {operator : Token} {e : Expr} (he : e.Nested D D' σ) :
      Frame.Nested D D' σ (.left operator e) (.left operator e)
  | right {operator : Token} {v : Value} :
      Frame.Nested D D' σ (.right operator v) (.right operator v)
  | append {text : String} : Frame.Nested D D' σ (.append text) (.append text)
  | logical {operator : Token} {e : Expr} (he : e.Nested D D' σ) :
      Frame.Nested D D' σ (.logical operator e) (.logical operator e)
  | assign {target : Reference} (h : target.Placed D D' σ) :
      Frame.Nested D D' σ (.assign target) (.assign target)
  | callee {paren : Token} {es : List Expr} (hes : Expr.NestedAll D D' σ es) :
      Frame.Nested D D' σ (.callee paren es) (.callee paren es)
  | argument {callee : Value} {paren : Token} {before : List Value} {es : List Expr}
      (hes : Expr.NestedAll D D' σ es) :
      Frame.Nested D D' σ (.argument callee paren before es) (.argument callee paren before es)
  | get {name : Token} : Frame.Nested D D' σ (.get name) (.get name)
  | setObject {name : Token} {e : Expr} (he : e.Nested D D' σ) :
      Frame.Nested D D' σ (.setObject name e) (.setObject name e)
  | setField {object : Nat} {name : Token} :
      Frame.Nested D D' σ (.setField object name) (.setField object name)
  | construct {object : Nat} : Frame.Nested D D' σ (.construct object) (.construct object)
  | show : Frame.Nested D D' σ .show .show
  | discard : Frame.Nested D D' σ .discard .discard
  | printValue : Frame.Nested D D' σ .printValue .printValue
  | printText : Frame.Nested D D' σ .printText .printText
  | define {name : Token} (hσ : σ.Solid) : Frame.Nested D D' σ (.define name) (.define name)
  | ifThen {s s' : Stmt} (hs : Stmt.Nested D D' σ s s') :
      Frame.Nested D D' σ (.branch s none) (.branch s' none)
  | ifElse {s s' t t' : Stmt} (hs : Stmt.Nested D D' σ s s') (ht : Stmt.Nested D D' σ t t') :
      Frame.Nested D D' σ (.branch s (some t)) (.branch s' (some t'))
  | loopTest {c : Expr} {s s' : Stmt} (hc : c.Nested D D' σ) (hs : Stmt.Nested D D' σ s s') :
      Frame.Nested D D' σ (.loopTest c s) (.loopTest c s')
  | loopBody {c : Expr} {s s' : Stmt} (hc : c.Nested D D' σ) (hs : Stmt.Nested D D' σ s s') :
      Frame.Nested D D' σ (.loopBody c s) (.loopBody c s')
  | ret : Frame.Nested D D' σ .ret .ret

/-- Stacks of frames inside the scopes of a nesting, from `k` outwards; the second has one more
frame for each pair of braces. -/
inductive FramesNested (D D' : Distances) (ι : Twins) (s s' : Store) :
    Nesting → Nat → List Frame → List Frame → Prop where
  | nil {σ : Nesting} {k : Nat} : FramesNested D D' ι s s' σ k [] []
  | cons {σ : Nesting} {k : Nat} {f f' : Frame} {fs fs' : List Frame} (hf : f.Nested D D' σ f')
      (hfs : FramesNested D D' ι s s' σ k fs fs') :
      FramesNested D D' ι s s' σ k (f :: fs) (f' :: fs')
  | body {σ : Nesting} {k : Nat} {c c' : Closure} {fs fs' : List Frame}
      (hc : c.Nested D D' ι s s' [] c') (hfs : FramesNested D D' ι s s' σ k fs fs') :
      FramesNested D D' ι s s' σ k (.body c :: fs) (.body c' :: fs')
  | sequence {σ τ : Nesting} {k outer outer' : Nat} {rest rest' : List Stmt}
      {fs fs' : List Frame} (hrest : Stmt.NestedAll D D' σ rest rest')
      (houter : ι.Paired s s' τ outer outer') (hfs : FramesNested D D' ι s s' τ outer fs fs') :
      FramesNested D D' ι s s' σ k (.sequence rest outer :: fs) (.sequence rest' outer' :: fs')
  | braces {σ : Nesting} {k outer' : Nat} {fs fs' : List Frame}
      (houter : ι.Paired s s' σ k outer') (hfs : FramesNested D D' ι s s' σ k fs fs') :
      FramesNested D D' ι s s' (false :: σ) k fs (.sequence [] outer' :: fs')

inductive Control.Nested (D D' : Distances) (σ : Nesting) : Control → Control → Prop where
  | eval {e : Expr} (he : e.Nested D D' σ) : Control.Nested D D' σ (.eval e) (.eval e)
  | exec {s s' : Stmt} (hs : Stmt.Nested D D' σ s s') :
      Control.Nested D D' σ (.exec s) (.exec s')
  | value {v : Value} : Control.Nested D D' σ (.value v) (.value v)
  | text {text : String} : Control.Nested D D' σ (.text text) (.text text)
  | done {c : Completion} : Control.Nested D D' σ (.done c) (.done c)
  | fault {f : Fault} : Control.Nested D D' σ (.fault f) (.fault f)

namespace Machine

/-- All of two machines but their controls. -/
structure Follows (D D' : Distances) (ι : Twins) (σ : Nesting) (m m' : Machine) : Prop where
  world : World.Nested D D' ι m.world m'.world
  paired : ι.Paired m.world.store m'.world.store σ m.scope m'.scope
  frames : FramesNested D D' ι m.world.store m'.world.store σ m.scope m.frames m'.frames

/-- The machine of a program without braces and that of the program with them, at the same place. -/
def Nested (D D' : Distances) (m m' : Machine) : Prop :=
  ∃ ι σ, Follows D D' ι σ m m' ∧ Control.Nested D D' σ m.control m'.control

end Machine

theorem FramesNested.later {D D' : Distances} {ι ι' : Twins} {s s' t t' : Store} {σ : Nesting}
    {k : Nat} {fs fs' : List Frame} (h : FramesNested D D' ι s s' σ k fs fs')
    (hlater : Later ι s s' ι' t t') : FramesNested D D' ι' t t' σ k fs fs' := by
  induction h with
  | nil => exact .nil
  | cons hf _ ih => exact .cons hf ih
  | body hc _ ih => exact .body (hc.later hlater) ih
  | sequence hrest houter _ ih => exact .sequence hrest (houter.later hlater) ih
  | braces houter _ ih => exact .braces (houter.later hlater) ih

namespace Machine.Follows

variable {D D' : Distances} {ι ι' : Twins} {σ : Nesting} {m m' : Machine}

/-- Both machines go on in later worlds. -/
theorem later (h : Follows D D' ι σ m m') {w w' : World} (hw : World.Nested D D' ι' w w')
    (hlater : Later ι m.world.store m'.world.store ι' w.store w'.store) :
    Follows D D' ι' σ { m with world := w } { m' with world := w' } :=
  ⟨hw, h.paired.later hlater, h.frames.later hlater⟩

theorem push (h : Follows D D' ι σ m m') {f f' : Frame} (hf : f.Nested D D' σ f') :
    Follows D D' ι σ (m.push f) (m'.push f') :=
  ⟨h.world, h.paired, .cons hf h.frames⟩

theorem control (h : Follows D D' ι σ m m') {c c' : Control} (hc : c.Nested D D' σ c') :
    Machine.Nested D D' { m with control := c } { m' with control := c' } :=
  ⟨ι, σ, ⟨h.world, h.paired, h.frames⟩, hc⟩

theorem eval (h : Follows D D' ι σ m m') {e : Expr} (he : e.Nested D D' σ) :
    Machine.Nested D D' (m.eval e) (m'.eval e) :=
  h.control (.eval he)

theorem exec (h : Follows D D' ι σ m m') {s s' : Stmt} (hs : Stmt.Nested D D' σ s s') :
    Machine.Nested D D' (m.exec s) (m'.exec s') :=
  h.control (.exec hs)

theorem yield (h : Follows D D' ι σ m m') (v : Value) :
    Machine.Nested D D' (m.yield v) (m'.yield v) :=
  h.control .value

theorem yieldText (h : Follows D D' ι σ m m') (text : String) :
    Machine.Nested D D' (m.yieldText text) (m'.yieldText text) :=
  h.control .text

theorem complete (h : Follows D D' ι σ m m') (c : Completion) :
    Machine.Nested D D' (m.complete c) (m'.complete c) :=
  h.control .done

theorem raise (h : Follows D D' ι σ m m') (f : Fault) :
    Machine.Nested D D' (m.raise f) (m'.raise f) :=
  h.control .fault

theorem settle (h : Follows D D' ι σ m m') (r : Except Fault Value) :
    Machine.Nested D D' (m.settle r) (m'.settle r) := by
  cases r with
  | ok v => exact h.yield v
  | error f => exact h.raise f

/-- A statement list in a new scope. -/
theorem runInside (h : Follows D D' ι σ m m') {enclosing enclosing' : Nat} {inner : Nesting}
    (hpaired : ι.Paired m.world.store m'.world.store inner enclosing enclosing')
    (names : List Token) (values : List Value) {body body' : List Stmt}
    (hbody : Stmt.NestedAll D D' (true :: inner) body body') :
    Machine.Nested D D' (m.runInside enclosing names values body)
      (m'.runInside enclosing' names values body') := by
  have hadd := h.world.withStore (h.world.store.addScope (some enclosing) (some enclosing'))
  have htwin : ι.add m.world.store m'.world.store m.world.store.nextScope =
      m'.world.store.nextScope := if_pos rfl
  obtain ⟨hworld, hlater⟩ := hadd.defineAll (k := m.world.store.nextScope) (by simp) names values
  rw [htwin] at hworld hlater
  have hall := h.later hworld (.trans (.addScope ι _ _ _ _) hlater)
  exact ⟨_, true :: inner, ⟨hworld, hpaired.addScope.later hlater,
    .sequence hbody hall.paired hall.frames⟩, .done⟩

theorem apply (h : Follows D D' ι σ m m') {c c' : Closure}
    (hc : c.Nested D D' ι m.world.store m'.world.store [] c') (arguments : List Value) :
    Machine.Nested D D' (m.apply c arguments) (m'.apply c' arguments) := by
  obtain ⟨inner, -, hpaired, hdeclaration⟩ := hc.declaration
  have hpush : Follows D D' ι σ (m.push (.body c)) (m'.push (.body c')) :=
    ⟨h.world, h.paired, .body hc h.frames⟩
  unfold Machine.apply
  generalize c.declaration = d, c'.declaration = d' at hdeclaration
  cases hdeclaration with
  | mk hbody => exact hpush.runInside hpaired _ arguments hbody

theorem applyMethod (h : Follows D D' ι σ m m') {c c' : Closure}
    (hc : c.Nested D D' ι m.world.store m'.world.store [true] c') (object : Nat)
    (arguments : List Value) :
    Machine.Nested D D' (m.applyMethod c object arguments)
      (m'.applyMethod c' object arguments) := by
  obtain ⟨ι', hlater, hworld, hbound⟩ := h.world.bindMethod hc object
  exact (h.later hworld hlater).apply hbound arguments

theorem construct (h : Follows D D' ι σ m m') (cls : Nat) (arguments : List Value) :
    Machine.Nested D D' (m.construct cls arguments) (m'.construct cls arguments) := by
  have hmethod := h.world.store.method? cls initializerName
  have hobjects : m'.world.store.objects.push { cls } = m.world.store.objects.push { cls } := by
    rw [h.world.store.objects]
  have hlater : Later ι m.world.store m'.world.store ι (m.world.addObject cls).store
      (m'.world.addObject cls).store := .ofScopes ι rfl rfl
  have hworld : World.Nested D D' ι (m.world.addObject cls) (m'.world.addObject cls) := by
    refine h.world.withStore ?_
    rw [Store.addObject, Store.addObject, hobjects]
    exact h.world.store.withObjects _
  have hadded := h.later hworld hlater
  unfold Machine.construct
  rw [h.world.store.nextObject]
  generalize m.world.store.method? cls initializerName = method,
    m'.world.store.method? cls initializerName = method' at hmethod
  cases hmethod with
  | none => exact hadded.yield _
  | some hclosure =>
    exact (hadded.push .construct).applyMethod (hclosure.later hlater) _ arguments

theorem applyNative (h : Follows D D' ι σ m m') (host : Host) (f : Native) (paren : Token)
    (arguments : List Value) :
    Machine.Nested D D' (m.applyNative host f paren arguments)
      (m'.applyNative host f paren arguments) := by
  cases f with
  | clock =>
    have hworld : World.Nested D D' ι m.world.readClock m'.world.readClock :=
      ⟨h.world.store, h.world.distances, h.world.distances', h.world.output,
        congrArg (· + 1) h.world.clockReads, h.world.log⟩
    simp only [Machine.applyNative, h.world.clockReads]
    exact (h.later hworld (.ofScopes ι rfl rfl)).settle _
  | guest arity answer =>
    simp only [Machine.applyNative, h.world.store.text]
    exact h.settle _

theorem arity? (h : Follows D D' ι σ m m') (v : Value) : m'.arity? v = m.arity? v := by
  cases v with
  | function id => simp only [Machine.arity?, (h.world.store.functions id).same.2]
  | native id => simp only [Machine.arity?, h.world.store.native]
  | cls id => simp only [Machine.arity?, h.world.store.classArity]
  | _ => rfl

theorem call (h : Follows D D' ι σ m m') (host : Host) (callee : Value) (paren : Token)
    (arguments : List Value) :
    Machine.Nested D D' (m.call host callee paren arguments)
      (m'.call host callee paren arguments) := by
  unfold Machine.call
  rw [h.arity?]
  split
  · exact h.raise _
  · split
    · cases callee with
      | function id => exact h.apply (h.world.store.functions id) arguments
      | native id =>
        simp only [h.world.store.native]
        exact h.applyNative host _ paren arguments
      | cls id => exact h.construct id arguments
      | _ => exact h.raise _
    · exact h.raise _

theorem arguments (h : Follows D D' ι σ m m') (host : Host) (callee : Value) (paren : Token)
    (before : List Value) {es : List Expr} (hes : Expr.NestedAll D D' σ es) :
    Machine.Nested D D' (m.arguments host callee paren before es)
      (m'.arguments host callee paren before es) := by
  cases es with
  | nil => exact h.call host callee paren before.reverse
  | cons e es => exact (h.push (.argument hes.2)).eval hes.1

theorem render (h : Follows D D' ι σ m m') (v : Value) :
    Machine.Nested D D' (m.render v) (m'.render v) := by
  cases v with
  | object id =>
    have hmethod := h.world.store.textMethod? id
    simp only [Machine.render, h.world.store.text]
    generalize m.world.store.textMethod? id = method,
      m'.world.store.textMethod? id = method' at hmethod
    cases hmethod with
    | none => exact h.yieldText _
    | some hclosure => exact (h.push .show).applyMethod hclosure id []
  | _ =>
    simp only [Machine.render, h.world.store.text]
    exact h.yieldText _

theorem binary (h : Follows D D' ι σ m m') (operator : Token) (l r : Value) :
    Machine.Nested D D' (m.binary operator l r) (m'.binary operator l r) := by
  unfold Machine.binary
  split
  · exact (h.push .append).render r
  · exact h.settle _

/-- A method, if there is one, is taken from an instance as a value. -/
theorem methodValue (h : Follows D D' ι σ m m') (cls object : Nat) (name : Token) :
    Machine.Nested D D'
      (match m.world.store.method? cls name.lexeme with
      | none => m.raise (.ofToken name (.undefinedProperty name.lexeme))
      | some method =>
        let (world, v) := m.world.methodValue method object
        { m with control := .value v, world })
      (match m'.world.store.method? cls name.lexeme with
      | none => m'.raise (.ofToken name (.undefinedProperty name.lexeme))
      | some method =>
        let (world, v) := m'.world.methodValue method object
        { m' with control := .value v, world }) := by
  have hmethod := h.world.store.method? cls name.lexeme
  generalize m.world.store.method? cls name.lexeme = method,
    m'.world.store.method? cls name.lexeme = method' at hmethod
  cases hmethod with
  | none => exact h.raise _
  | some hclosure =>
    obtain ⟨ι', hlater, hworld, hvalue⟩ := h.world.methodValue hclosure object
    simp only [hvalue]
    exact (h.later hworld hlater).yield _

theorem property (h : Follows D D' ι σ m m') (object : Nat) (name : Token) :
    Machine.Nested D D' (m.property object name) (m'.property object name) := by
  unfold Machine.property
  rw [h.world.store.object]
  split
  · exact h.yield _
  · exact h.methodValue _ object name

/-- `this` is bound one scope inside `super` in both programs. -/
theorem superParts (h : Follows D D' ι σ m m') {ref : Reference} {method : Token}
    (href : Expr.Nested D D' σ (.super ref method)) : m'.superParts ref = m.superParts ref := by
  obtain ⟨d, hd, hd', hplace⟩ := href
  have hvalue (d : Nat) (name : Token) :
      m'.world.store.valueAt m'.scope (σ.place d) name = m.world.store.valueAt m.scope d name :=
    congrArg (Store.orUndefined name) (h.world.store.scopes.valueAt? h.paired d name.lexeme)
  have hsuper := hvalue (d + 1) ref.name
  rw [hplace] at hsuper
  simp only [Machine.superParts, World.distance?, h.world.distances, h.world.distances', hd, hd',
    hsuper, Nat.add_sub_cancel, hvalue]

theorem superMethod (h : Follows D D' ι σ m m') {ref : Reference} {method : Token}
    (href : Expr.Nested D D' σ (.super ref method)) :
    Machine.Nested D D' (m.superMethod ref method) (m'.superMethod ref method) := by
  unfold Machine.superMethod
  rw [h.superParts href]
  split
  · exact h.raise _
  · exact h.methodValue _ _ method

theorem assign (h : Follows D D' ι σ m m') {ref : Reference} (href : ref.Placed D D' σ)
    (v : Value) : Machine.Nested D D' (m.assign ref v) (m'.assign ref v) := by
  obtain ⟨htarget, hknown⟩ := h.world.target? h.paired href
  unfold Machine.assign
  rw [htarget]
  cases hfound : m.world.target? m.scope ref with
  | none => exact h.raise _
  | some scope =>
    have hdefine := h.world.define (hknown scope hfound) ref.name.lexeme v
    exact (h.later hdefine (.define ι _ _ scope (ι scope) ref.name.lexeme v)).yield v

/-- Both superclasses are the same class, or there is the same fault. -/
theorem superclass (h : Follows D D' ι σ m m') {ref : Reference} (href : ref.Placed D D' σ) :
    m'.superclass (some ref) = m.superclass (some ref) ∧
      ((∃ id, m.superclass (some ref) = .ok (some id)) ∨
        ∃ f, m.superclass (some ref) = .error f) := by
  simp only [Machine.superclass, h.world.read h.paired href, true_and]
  cases m.world.read m.scope ref with
  | error f => exact .inr ⟨f, rfl⟩
  | ok v =>
    cases v with
    | cls id => exact .inl ⟨id, rfl⟩
    | _ => exact .inr ⟨_, rfl⟩

end Machine.Follows

/-- The methods of a class without braces in them and with them. -/
theorem methodTable_nested {D D' : Distances} {ι : Twins} {s s' : Store} {σ : Nesting}
    {scope scope' : Nat} (hσ : σ.Solid) (hpaired : ι.Paired s s' σ scope scope')
    {methods methods' : List FunctionDecl}
    (h : FunctionDecl.NestedAll D D' (true :: σ) methods methods') (name : String) :
    Option.Rel (Closure.Nested D D' ι s s' [true]) ((Machine.methodTable scope methods).get? name)
      ((Machine.methodTable scope' methods').get? name) := by
  have hfold (methods methods' : List FunctionDecl) (table table' : Bindings Closure)
      (h : FunctionDecl.NestedAll D D' (true :: σ) methods methods')
      (htable : Option.Rel (Closure.Nested D D' ι s s' [true]) (table.get? name)
        (table'.get? name)) :
      Option.Rel (Closure.Nested D D' ι s s' [true])
        ((methods.foldl (fun table d => table.insert d.name.lexeme
          ⟨d, scope, decide (d.name.lexeme = initializerName)⟩) table).get? name)
        ((methods'.foldl (fun table d => table.insert d.name.lexeme
          ⟨d, scope', decide (d.name.lexeme = initializerName)⟩) table').get? name) := by
    induction methods generalizing methods' table table' with
    | nil =>
      cases h
      exact htable
    | cons d methods ih =>
      cases h with
      | @cons _ _ d' _ methods' hd hmethods =>
        refine ih methods' _ _ hmethods ?_
        simp only [Bindings.get?_insert, hd.same.1]
        split
        · exact .some ⟨rfl, σ, hσ, hpaired, hd⟩
        · exact htable
  exact hfold methods methods' .empty .empty h .none

namespace Machine.Follows

variable {D D' : Distances} {ι : Twins} {σ : Nesting} {m m' : Machine}

/-- A declaration ends: its name is bound in the current scope of a later world. -/
theorem declared (h : Follows D D' ι σ m m') (hσ : σ.Solid) {ι' : Twins} {w w' : World}
    (hw : World.Nested D D' ι' w w')
    (hlater : Later ι m.world.store m'.world.store ι' w.store w'.store) (name : String)
    (v : Value) :
    Machine.Nested D D'
      { m with control := .done .normal, world := w.define m.scope name v }
      { m' with control := .done .normal, world := w'.define m'.scope name v } := by
  obtain ⟨hknown, htwin⟩ := hw.store.scopes.twin (h.paired.later hlater) hσ
  have hdefine := hw.define hknown name v
  rw [← htwin] at hdefine
  exact (h.later hdefine (hlater.trans (.define ι' _ _ _ _ _ _))).control .done

theorem plainClass (h : Follows D D' ι σ m m') (hσ : σ.Solid) (name : Token)
    {methods methods' : List FunctionDecl}
    (hmethods : FunctionDecl.NestedAll D D' (true :: σ) methods methods') :
    Machine.Nested D D' (m.declareClass name none methods)
      (m'.declareClass name none methods') := by
  have hclass : Class.Nested D D' ι m.world.store m'.world.store
      { name := name.lexeme, methods := methodTable m.scope methods }
      { name := name.lexeme, methods := methodTable m'.scope methods' } :=
    ⟨rfl, rfl, methodTable_nested hσ h.paired hmethods⟩
  have hadd := h.world.withStore (h.world.store.addClass hclass)
  have hdeclared := h.declared hσ hadd (.ofScopes ι rfl rfl) name.lexeme
    (.cls m.world.store.nextClass)
  simp only [Machine.declareClass, h.world.store.nextClass]
  exact hdeclared

theorem subclass (h : Follows D D' ι σ m m') (hσ : σ.Solid) (name : Token) (id : Nat)
    {methods methods' : List FunctionDecl}
    (hmethods : FunctionDecl.NestedAll D D' (true :: true :: σ) methods methods') :
    Machine.Nested D D' (m.declareClass name (some id) methods)
      (m'.declareClass name (some id) methods') := by
  obtain ⟨hworld, hlater, hsuper⟩ := h.world.bind h.paired "super" (.cls id)
  have hclass : Class.Nested D D' (ι.add m.world.store m'.world.store) _ _
      { name := name.lexeme, superclass := some id,
        methods := methodTable m.world.store.nextScope methods }
      { name := name.lexeme, superclass := some id,
        methods := methodTable m'.world.store.nextScope methods' } :=
    ⟨rfl, rfl, methodTable_nested (Nesting.solid_cons σ) hsuper hmethods⟩
  have hadd := hworld.withStore (hworld.store.addClass hclass)
  have hdeclared := h.declared hσ hadd (hlater.trans (.ofScopes _ rfl rfl)) name.lexeme
    (.cls m.world.store.nextClass)
  simp only [Machine.declareClass, h.world.store.nextClass]
  exact hdeclared

theorem derivedClass (h : Follows D D' ι σ m m') (hσ : σ.Solid) (name : Token) {ref : Reference}
    (href : ref.Placed D D' σ) {methods methods' : List FunctionDecl}
    (hmethods : FunctionDecl.NestedAll D D' (true :: true :: σ) methods methods') :
    Machine.Nested D D' (m.execStep (.cls name (some ref) methods))
      (m'.execStep (.cls name (some ref) methods')) := by
  obtain ⟨hsame, hcases⟩ := h.superclass href
  simp only [Machine.execStep, hsame]
  rcases hcases with ⟨id, hid⟩ | ⟨f, hf⟩
  · rw [hid]
    exact h.subclass hσ name id hmethods
  · rw [hf]
    exact h.raise f

theorem function (h : Follows D D' ι σ m m') (hσ : σ.Solid) {d d' : FunctionDecl}
    (hd : FunctionDecl.Nested D D' σ d d') :
    Machine.Nested D D' (m.execStep (.function d)) (m'.execStep (.function d')) := by
  have hclosure : Closure.Nested D D' ι m.world.store m'.world.store [] ⟨d, m.scope, false⟩
      ⟨d', m'.scope, false⟩ := ⟨rfl, σ, hσ, h.paired, hd⟩
  have hadd := h.world.withStore (h.world.store.addFunction hclosure)
  have hdeclared := h.declared hσ hadd (.ofScopes ι rfl rfl) d.name.lexeme
    (.function m.world.store.nextFunction)
  simp only [Machine.execStep, h.world.store.nextFunction, hd.same.1]
  exact hdeclared

/-- Beginning to evaluate an expression. -/
theorem evalStep (h : Follows D D' ι σ m m') {e : Expr} (he : e.Nested D D' σ) :
    Machine.Nested D D' (m.evalStep e) (m'.evalStep e) := by
  cases e with
  | constant c => exact h.yield _
  | grouping e => exact h.eval he
  | unary operator e => exact (h.push .unary).eval he
  | binary l operator r => exact (h.push (.left he.2)).eval he.1
  | logical l operator r => exact (h.push (.logical he.2)).eval he.1
  | «variable» ref | this ref =>
    simp only [Machine.evalStep, h.world.read h.paired he]
    exact h.settle _
  | assign target e => exact (h.push (.assign he.1)).eval he.2
  | call f paren es => exact (h.push (.callee he.2)).eval he.1
  | get e name => exact (h.push .get).eval he
  | set e name v => exact (h.push (.setObject he.2)).eval he.1
  | super ref method => exact h.superMethod he

end Machine.Follows

end ClassScript
