import ClassScript.Proofs.Evaluation.Preservation
import ClassScript.Proofs.Store.Homes

/-! # Where evaluation is at home

The record of homes is kept along with evaluation.  What a step makes belongs to the method that it
looks up, or to the function that it calls, or else to the code that it evaluates.  So the code of a
method is at home at the class that declares the method and at the instance that it was looked up
on, and a function inside is at home where it was declared, whoever calls it.  The record agrees
with the store along every run, and from this follows what `this` and `super` stand for.
-/
namespace ClassScript

open Store (Grows)

/-- A look-up of a method: the class where it begins, the name, and the instance that it is made
for. -/
structure Lookup where
  cls : Nat
  name : String
  object : Nat

namespace Store

/-- The home of the method that a look-up finds. -/
def home? (s : Store) (l : Lookup) : Option Home :=
  (s.declarer? l.cls l.name).map fun cls => ⟨cls, l.object⟩

/-- The text of an instance is given by one of its methods. -/
def textLookup? (s : Store) : Value → Option Lookup
  | .object id => some ⟨(s.object id).cls, textMethodName, id⟩
  | _ => none

end Store

namespace Machine

/-- The method that the next step looks up: for `super`, for a property, for a text that is printed
or appended, and for the construction of an instance. -/
def lookup? (m : Machine) : Option Lookup :=
  match m.control, m.frames with
  | .eval (.super ref name), _ =>
    (m.superParts ref).toOption.map fun parts => ⟨parts.1, name.lexeme, parts.2⟩
  | .value (.object id), .get name :: _ =>
    some ⟨(m.world.store.object id).cls, name.lexeme, id⟩
  | .value v, .printValue :: _ => m.world.store.textLookup? v
  | .value v, .right operator (.string _) :: _ =>
    if operator.kind = .plus then m.world.store.textLookup? v else none
  | .value (.cls id), .callee _ [] :: _ | .value _, .argument (.cls id) _ _ [] :: _ =>
    some ⟨id, initializerName, m.world.store.nextObject⟩
  | _, _ => none

/-- The function that the next step calls. -/
def called? (m : Machine) : Option Nat :=
  match m.control, m.frames with
  | .value (.function id), .callee _ [] :: _ | .value _, .argument (.function id) _ _ [] :: _ =>
    some id
  | _, _ => none

/-- The superclass of the class that the next step declares. -/
def declared? (m : Machine) : Option Nat :=
  match m.control with
  | .exec (.cls _ superclass _) => (m.superclass superclass).toOption.join
  | _ => none

end Machine

namespace Homes

/-- The home of a function; a number that names no function has none. -/
def function (g : Homes) (s : Store) (id : Nat) : Option Home :=
  if id < s.nextFunction then g.functions id else none

/-- The home of what the next step makes. -/
def origin (g : Homes) (m : Machine) : Option Home :=
  match m.lookup? with
  | some l => m.world.store.home? l
  | none =>
    match m.called? with
    | some id => g.function m.world.store id
    | none => g.scopes m.scope

/-- The record after a step.  Numbers that had not been given before it are those of what it makes;
one that stays free gets its home from a later step. -/
def next (g : Homes) (m : Machine) : Homes where
  scopes k := if k < m.world.store.nextScope then g.scopes k else g.origin m
  functions id := if id < m.world.store.nextFunction then g.functions id else g.origin m
  superclass cls := if cls < m.world.store.nextClass then g.superclass cls else m.declared?

/-- The record after at most `n` steps. -/
def follow (host : Host) : Nat → Homes → Machine → Homes
  | 0, g, _ => g
  | n + 1, g, m => if m.isFinal then g else follow host n (g.next m) (m.step host)

/-- The home of what will be made in this store. -/
structure Awaits (g : Homes) (s : Store) (home : Option Home) : Prop where
  scopes : ∀ k, s.nextScope ≤ k → g.scopes k = home
  functions : ∀ id, s.nextFunction ≤ id → g.functions id = home

/-- The home of what a step makes is what the record says after the step. -/
theorem next_awaits {g : Homes} {m : Machine} (h : m.scope < m.world.store.nextScope) :
    (g.next m).Awaits m.world.store ((g.next m).origin m) := by
  have hfunction (id : Nat) :
      (g.next m).function m.world.store id = g.function m.world.store id := by
    unfold function
    split
    next hid => exact if_pos hid
    next => rfl
  have horigin : (g.next m).origin m = g.origin m := by
    unfold origin
    rw [show (g.next m).scopes m.scope = g.scopes m.scope from if_pos h]
    simp only [hfunction]
  rw [horigin]
  exact ⟨fun _ hk => if_neg (Nat.not_lt.2 hk), fun _ hid => if_neg (Nat.not_lt.2 hid)⟩

theorem next_superclass (g : Homes) (m : Machine) :
    (g.next m).superclass m.world.store.nextClass = m.declared? :=
  if_neg (Nat.lt_irrefl _)

/-- What has been made before a step keeps its home. -/
theorem Describes.next {g : Homes} {m : Machine} (h : g.Describes m.world.store) :
    (g.next m).Describes m.world.store :=
  h.congr (fun _ hk => if_pos hk) (fun _ hid => if_pos hid) fun _ hcls => if_pos hcls

/-- A function is at home where its scope is. -/
theorem Describes.function {g : Homes} {s : Store} (h : g.Describes s) (id : Nat) :
    (s.closure id).scope < s.nextScope ∧ g.function s id = g.scopes (s.closure id).scope := by
  unfold Homes.function
  split
  next hid => exact h.functions id hid
  next hid =>
    have hclosure : s.closure id = default := by
      rw [Store.closure, Array.getD_eq_getD_getElem?, Array.getElem?_eq_none (Nat.not_lt.1 hid)]
      rfl
    rw [hclosure]
    exact ⟨h.global.1.1, h.global.2.symm⟩

theorem Describes.defineAll {g : Homes} {w : World} (h : g.Describes w.store) (k : Nat)
    {names : List Token} (hnames : ∀ p ∈ names, p.IsPlain) (values : List Value) :
    g.Describes (w.defineAll k names values).store := by
  induction names generalizing w values with
  | nil => exact h
  | cons name names ih =>
    obtain ⟨hname, hnames⟩ := List.forall_mem_cons.1 hnames
    cases values with
    | nil => exact h
    | cons v values =>
      exact ih (w := w.define k name.lexeme v) (h.keep (.define _ k v (Store.not_isImplicit hname))
        (Store.nextScope_define _ _ _ _) rfl rfl) hnames values

end Homes

/-- The scope to return to after a statement list. -/
def Frame.outer? : Frame → Option Nat
  | .sequence _ outer => some outer
  | _ => none

/-- The record agrees with the store of the machine, and statement lists run in scopes that have
neither `this` nor `super`. -/
structure Machine.Housed (g : Homes) (m : Machine) : Prop where
  store : g.Describes m.world.store
  scope : m.world.store.Bare m.scope
  outers : ∀ f ∈ m.frames, ∀ outer, f.outer? = some outer → m.world.store.Bare outer

namespace Machine.Housed

variable {g : Homes} {m : Machine} {R : Recorded} {fn : FunctionContext} {ctx : Context}
  {host : Host}

theorem control (h : m.Housed g) (c : Control) : Machine.Housed g { m with control := c } :=
  ⟨h.store, h.scope, h.outers⟩

theorem push (h : m.Housed g) {f : Frame} (hf : f.outer? = none) : (m.push f).Housed g := by
  refine ⟨h.store, h.scope, fun f' hf' outer houter => ?_⟩
  rcases List.mem_cons.1 hf' with rfl | hf'
  · rw [hf] at houter
    cases houter
  · exact h.outers f' hf' outer houter

theorem eval (h : m.Housed g) (e : Expr) : (m.eval e).Housed g := h.control _

theorem exec (h : m.Housed g) (s : Stmt) : (m.exec s).Housed g := h.control _

theorem yield (h : m.Housed g) (v : Value) : (m.yield v).Housed g := h.control _

theorem complete (h : m.Housed g) (c : Completion) : (m.complete c).Housed g := h.control _

theorem raise (h : m.Housed g) (f : Fault) : (m.raise f).Housed g := h.control _

theorem settle (h : m.Housed g) (result : Except Fault Value) : (m.settle result).Housed g := by
  cases result with
  | ok v => exact h.yield v
  | error f => exact h.raise f

/-- The store has grown, and the record still agrees with it. -/
theorem extend (h : m.Housed g) {w : World} (hgrows : Grows m.world.store w.store)
    (hstore : g.Describes w.store) : Machine.Housed g { m with world := w } :=
  ⟨hstore, h.scope.grow hgrows, fun f hf outer houter => (h.outers f hf outer houter).grow hgrows⟩

/-- Neither scopes nor functions nor classes change. -/
theorem extendSame (h : m.Housed g) {w : World} (hscopes : w.store.scopes = m.world.store.scopes)
    (hfunctions : w.store.functions = m.world.store.functions)
    (hclasses : w.store.classes = m.world.store.classes) :
    Machine.Housed g { m with world := w } := by
  have hgrows : Grows m.world.store w.store := .ofScopes hscopes
  refine h.extend hgrows (h.store.keep hgrows ?_ hfunctions hclasses)
  rw [Store.nextScope, Store.nextScope, hscopes]

theorem define (h : m.Housed g) (k : Nat) {name : Token} (hname : name.IsPlain) (v : Value) :
    Machine.Housed g { m with world := m.world.define k name.lexeme v } := by
  have hgrows : Grows m.world.store (m.world.define k name.lexeme v).store :=
    .define _ k v (Store.not_isImplicit hname)
  exact h.extend hgrows (h.store.keep hgrows (Store.nextScope_define _ _ _ _) rfl rfl)

/-- A statement list runs in a new scope that is at home where the scope around it is. -/
theorem runInside (h : m.Housed g) (hw : m.world.Sound R) {outer : Nat} {names : List Token}
    {values : List Value} {body : List Stmt} (houter : outer < m.world.store.nextScope)
    (hnames : ∀ p ∈ names, p.IsPlain)
    (hnew : g.scopes m.world.store.nextScope = g.scopes outer) :
    (m.runInside outer names values body).Housed g := by
  have hadd := World.Extends.addScope hw (some outer)
  have hall := World.Extends.defineAll (hadd.world hw) m.world.store.nextScope hnames values
  have hbare : (m.world.addScope (some outer)).store.Bare m.world.store.nextScope := by
    refine ⟨by simp [World.addScope], fun name _ => ?_⟩
    rw [World.addScope, Store.own?_addScope, Store.own?_of_le _ (Nat.le_refl _)]
  have hstore : g.Describes (m.world.addScope (some outer)).store := h.store.addScope houter hnew
  have hinner := h.extend (hadd.trans hall).grows (hstore.defineAll _ hnames values)
  refine ⟨hinner.store, hbare.grow hall.grows, fun f hf k hk => ?_⟩
  rcases List.mem_cons.1 hf with rfl | hf
  · obtain rfl : m.scope = k := by simpa [Frame.outer?] using hk
    exact hinner.scope
  · exact hinner.outers f hf k hk

theorem apply (h : m.Housed g) (hw : m.world.Sound R) {c : Closure} {arguments : List Value}
    (hc : c.Ready R m.world.Clean m.world.store) (hscope : c.scope < m.world.store.nextScope)
    (hnew : g.scopes m.world.store.nextScope = g.scopes c.scope) :
    (m.apply c arguments).Housed g := by
  obtain ⟨fn', ctx', -, hbound, -⟩ := hc
  obtain ⟨⟨name, parameters, body⟩, scope, isInitializer⟩ := c
  have hpush := h.push (f := .body ⟨⟨name, parameters, body⟩, scope, isInitializer⟩) rfl
  exact hpush.runInside hw hscope hbound.2.1 hnew

section Method

variable {method : Closure} {home : Home}

/-- A method is bound to the instance at home. -/
theorem bindMethod (h : m.Housed g) (hmethod : g.Surrounds m.world.store home.cls method.scope)
    (hnew : g.scopes m.world.store.nextScope = some home) :
    Machine.Housed g { m with world := (m.world.bindMethod method home.object).1 } :=
  h.extend (.addDefine _ _ _ _) (h.store.addThis hmethod hnew)

theorem applyMethod (h : m.Housed g) (hw : m.world.Sound R)
    (hready : method.ReadyMethod R m.world.Clean m.world.store)
    (hmethod : g.Surrounds m.world.store home.cls method.scope)
    (hnew : g.Awaits m.world.store (some home)) (arguments : List Value) :
    (m.applyMethod method home.object arguments).Housed g := by
  obtain ⟨hextends, hbound⟩ := World.bindMethod_ready hw hready home.object
  have hscope := hnew.scopes _ (Nat.le_refl _)
  refine (h.bindMethod hmethod hscope).apply (hextends.world hw) (hextends.clean ▸ hbound) ?_ ?_
  · simp [World.bindMethod, World.define, World.addScope]
  · exact (hnew.scopes _ hextends.grows.size).trans hscope.symm

/-- A method that is taken as a value is at home where it was looked up. -/
theorem methodValue (h : m.Housed g) (hmethod : g.Surrounds m.world.store home.cls method.scope)
    (hnew : g.Awaits m.world.store (some home)) (c : Control) :
    Machine.Housed g { m with
      control := c
      world := (m.world.methodValue method home.object).1 } := by
  have hscope := hnew.scopes _ (Nat.le_refl _)
  have hbound := h.bindMethod hmethod hscope
  have hstore : g.Describes (m.world.methodValue method home.object).1.store := by
    refine hbound.store.addFunction ?_ ?_
    · simp [World.bindMethod, World.define, World.addScope]
    · exact (hnew.functions _ (Nat.le_refl _)).trans hscope.symm
  exact (hbound.extend (w := (m.world.methodValue method home.object).1) (.ofScopes rfl)
    hstore).control c

end Method

/-- The record expects the home of what a look-up finds. -/
theorem found (h : m.Housed g) {l : Lookup} {method : Closure}
    (hmethod : m.world.store.method? l.cls l.name = some method)
    (hnew : g.Awaits m.world.store (m.world.store.home? l)) :
    ∃ home : Home, home.object = l.object ∧ g.Surrounds m.world.store home.cls method.scope ∧
      g.Awaits m.world.store (some home) := by
  obtain ⟨declarer, hdeclarer, hsurrounds⟩ := h.store.method hmethod
  rw [Store.home?, hdeclarer] at hnew
  exact ⟨⟨declarer, l.object⟩, rfl, hsurrounds, hnew⟩

theorem construct (h : m.Housed g) (hw : m.world.Sound R) {cls : Nat} (arguments : List Value)
    (hnew : g.Awaits m.world.store
      (m.world.store.home? ⟨cls, initializerName, m.world.store.nextObject⟩)) :
    (m.construct cls arguments).Housed g := by
  have hextends : World.Extends R m.world (m.world.addObject cls) :=
    .keep hw rfl rfl (.ofScopes rfl) rfl rfl rfl
  have hobject := h.extendSame (w := m.world.addObject cls) rfl rfl rfl
  unfold Machine.construct
  cases hmethod : m.world.store.method? cls initializerName with
  | none => exact hobject.yield _
  | some method =>
    obtain ⟨home, hhome, hsurrounds, hawaits⟩ :=
      h.found (l := ⟨cls, initializerName, m.world.store.nextObject⟩) hmethod hnew
    have hpush := hobject.push (f := .construct m.world.store.nextObject) rfl
    have hready := (hw.store.method hmethod).mono hextends.grows id
    simp only at hhome
    rw [← hhome] at hpush ⊢
    exact hpush.applyMethod (hextends.world hw) (hextends.clean ▸ hready)
      (hsurrounds.grow hextends.grows (Nat.le_refl _)) ⟨hawaits.scopes, hawaits.functions⟩ arguments

theorem call (h : m.Housed g) (hw : m.world.Sound R) {callee : Value} {paren : Token}
    {arguments : List Value}
    (hfunction : ∀ id, callee = .function id →
      g.Awaits m.world.store (g.function m.world.store id))
    (hclass : ∀ cls, callee = .cls cls → g.Awaits m.world.store
      (m.world.store.home? ⟨cls, initializerName, m.world.store.nextObject⟩)) :
    (m.call host callee paren arguments).Housed g := by
  unfold Machine.call
  split
  · exact h.raise _
  next arity harity =>
    split
    · split
      next id =>
        obtain ⟨hscope, hhome⟩ := h.store.function id
        exact h.apply hw (hw.store.functions id) hscope
          (((hfunction id rfl).scopes _ (Nat.le_refl _)).trans hhome)
      next id =>
        rw [hw.store.natives id]
        exact (h.extendSame (w := m.world.readClock) rfl rfl rfl).settle _
      next cls => exact h.construct hw arguments (hclass cls rfl)
      next => exact h.raise _
    · exact h.raise _

theorem arguments (h : m.Housed g) (hw : m.world.Sound R) {callee : Value} {paren : Token}
    {before : List Value} {es : List Expr}
    (hfunction : ∀ id, es = [] → callee = .function id →
      g.Awaits m.world.store (g.function m.world.store id))
    (hclass : ∀ cls, es = [] → callee = .cls cls → g.Awaits m.world.store
      (m.world.store.home? ⟨cls, initializerName, m.world.store.nextObject⟩)) :
    (m.arguments host callee paren before es).Housed g := by
  cases es with
  | nil => exact h.call hw (fun id => hfunction id rfl) fun cls => hclass cls rfl
  | cons e es => exact (h.push rfl).eval e

theorem render (h : m.Housed g) (hw : m.world.Sound R) {v : Value}
    (hnew : ∀ l, m.world.store.textLookup? v = some l →
      g.Awaits m.world.store (m.world.store.home? l)) : (m.render v).Housed g := by
  unfold Machine.render
  split
  next id =>
    split
    next method hmethod =>
      have hfound := (Option.filter_eq_some_iff.1 hmethod).1
      obtain ⟨home, rfl, hsurrounds, hawaits⟩ :=
        h.found (l := ⟨(m.world.store.object id).cls, textMethodName, id⟩) hfound (hnew _ rfl)
      exact (h.push rfl).applyMethod hw (hw.store.method hfound) hsurrounds hawaits []
    next => exact h.control _
  next => exact h.control _

theorem property (h : m.Housed g) {object : Nat} {name : Token}
    (hnew : g.Awaits m.world.store
      (m.world.store.home? ⟨(m.world.store.object object).cls, name.lexeme, object⟩)) :
    (m.property object name).Housed g := by
  unfold Machine.property
  split
  · exact h.yield _
  · split
    · exact h.raise _
    next method hmethod =>
      obtain ⟨home, rfl, hsurrounds, hawaits⟩ :=
        h.found (l := ⟨(m.world.store.object object).cls, name.lexeme, object⟩) hmethod hnew
      exact h.methodValue hsurrounds hawaits _

theorem superMethod (h : m.Housed g) {ref : Reference} {name : Token}
    (hnew : ∀ cls object, m.superParts ref = .ok (cls, object) →
      g.Awaits m.world.store (m.world.store.home? ⟨cls, name.lexeme, object⟩)) :
    (m.superMethod ref name).Housed g := by
  unfold Machine.superMethod
  split
  · exact h.raise _
  next cls object hparts =>
    split
    · exact h.raise _
    next method hmethod =>
      obtain ⟨home, rfl, hsurrounds, hawaits⟩ :=
        h.found (l := ⟨cls, name.lexeme, object⟩) hmethod (hnew cls object hparts)
      exact h.methodValue hsurrounds hawaits _

/-- The methods of a class close over the scope of its `super`, or over that of its declaration,
which has none. -/
theorem declareClass (h : m.Housed g) {name : Token} {superclass : Option Nat}
    {methods : List FunctionDecl} (hname : name.IsPlain)
    (hnew : g.scopes m.world.store.nextScope = g.scopes m.scope)
    (hsuperclass : g.superclass m.world.store.nextClass = superclass) :
    (m.declareClass name superclass methods).Housed g := by
  cases superclass with
  | none =>
    have hstore : g.Describes (m.world.store.addClass
        { name := name.lexeme, methods := methodTable m.scope methods }) := by
      refine h.store.addClass hsuperclass fun name c hc => ?_
      obtain ⟨d, -, rfl⟩ := mem_methodTable hc
      exact ⟨h.scope.1, h.scope.2 _ (.inr rfl)⟩
    have hclass := h.extend (w := m.world.addClass
      { name := name.lexeme, methods := methodTable m.scope methods }) (.ofScopes rfl) hstore
    exact (hclass.define m.scope hname (.cls m.world.store.nextClass)).control _
  | some id =>
    let inner := m.world.store.nextScope
    let w := (m.world.addScope (some m.scope)).define inner "super" (.cls id)
    have hinner := h.extend (w := w) (.addDefine _ _ _ _)
      (h.store.addSuper h.scope.1 hnew (.cls id))
    have hstore : g.Describes (w.store.addClass
        { name := name.lexeme, superclass := some id, methods := methodTable inner methods }) := by
      refine hinner.store.addClass hsuperclass fun name c hc => ?_
      obtain ⟨d, -, rfl⟩ := mem_methodTable hc
      simp [w, inner, World.define, World.addScope, Store.own?_define]
    have hclass := hinner.extend (w := w.addClass
      { name := name.lexeme, superclass := some id, methods := methodTable inner methods })
      (.ofScopes rfl) hstore
    exact (hclass.define m.scope hname (.cls m.world.store.nextClass)).control _

/-- The rest of the frames. -/
theorem drop {f : Frame} {fs : List Frame} (h : m.Housed g) (hframes : m.frames = f :: fs) :
    Machine.Housed g { m with frames := fs } :=
  ⟨h.store, h.scope, fun f' hf' => h.outers f' (by simp [hframes, hf'])⟩

theorem evalStep (h : m.Housed g) {e : Expr} (hcontrol : m.control = .eval e)
    (hnew : g.Awaits m.world.store (g.origin m)) : (m.evalStep e).Housed g := by
  cases e with
  | constant c => exact h.yield _
  | grouping e => exact h.eval e
  | unary _ e | get e _ => exact (h.push rfl).eval e
  | binary l _ _ | logical l _ _ => exact (h.push rfl).eval l
  | «variable» ref | this ref => exact h.settle _
  | assign _ e | set e _ _ => exact (h.push rfl).eval e
  | call f _ _ => exact (h.push rfl).eval f
  | super ref name =>
    refine h.superMethod fun cls object hparts => ?_
    have hlookup : m.lookup? = some ⟨cls, name.lexeme, object⟩ := by
      simp [Machine.lookup?, hcontrol, hparts, Except.toOption]
    simpa [Homes.origin, hlookup] using hnew

theorem execStep (h : m.Housed g) (hw : m.world.Sound R) {s : Stmt} (hs : s.Bound R fn ctx)
    (hcontrol : m.control = .exec s) (hnew : g.Awaits m.world.store (g.origin m))
    (hsuperclass : g.superclass m.world.store.nextClass = m.declared?) :
    (m.execStep s).Housed g := by
  have horigin : g.origin m = g.scopes m.scope := by
    simp [Homes.origin, Machine.lookup?, Machine.called?, hcontrol]
  rw [horigin] at hnew
  have hscope := hnew.scopes _ (Nat.le_refl _)
  cases s with
  | expression e | print e | loop e _ | branch e _ _ => exact (h.push rfl).eval e
  | var name initial =>
    cases initial with
    | none => exact (h.define m.scope hs.1 .nil).control _
    | some e => exact (h.push rfl).eval e
  | block body => exact h.runInside hw h.scope.1 (by simp) hscope
  | function d =>
    have hfunction := hnew.functions _ (Nat.le_refl _)
    have hadd := h.extend (w := m.world.addFunction ⟨d, m.scope, false⟩) (.ofScopes rfl)
      (h.store.addFunction h.scope.1 hfunction)
    exact (hadd.define m.scope hs.1.1 (.function m.world.store.nextFunction)).control _
  | cls name superclass methods =>
    have hname : name.IsPlain := by
      cases superclass with
      | none => exact hs.1.1
      | some ref => exact hs.1.1
    rw [Machine.execStep]
    split
    · exact h.raise _
    next id hid =>
      refine h.declareClass hname hscope ?_
      simp [hsuperclass, Machine.declared?, hcontrol, hid, Except.toOption]
  | ret _ value =>
    cases value with
    | none => exact h.complete _
    | some e => exact (h.push rfl).eval e

section Take

variable {f : Frame} {fs : List Frame}

theorem takeValue (hframes : m.frames = f :: fs) (h : m.Housed g) (hat : m.At R .value fn ctx)
    {v : Value} (hcontrol : m.control = .value v) (hnew : g.Awaits m.world.store (g.origin m)) :
    ({ m with frames := fs }.takeValue host v f).Housed g := by
  have hrest := h.drop hframes
  have hlookup {l : Lookup} (hl : m.lookup? = some l) :
      g.Awaits m.world.store (m.world.store.home? l) := by
    simpa [Homes.origin, hl] using hnew
  have hcall {id : Nat} (hl : m.lookup? = none) (hid : m.called? = some id) :
      g.Awaits m.world.store (g.function m.world.store id) := by
    simpa [Homes.origin, hl, hid] using hnew
  obtain ⟨hw, -, hstack⟩ := hat
  rw [hframes] at hstack
  cases hstack with
  | define hname _ => exact (hrest.define m.scope hname v).control _
  | frame hf _ =>
    cases hf with
    | unary => exact hrest.settle _
    | left => exact (hrest.push rfl).eval _
    | @right operator l =>
      simp only [Machine.takeValue, Machine.binary]
      split
      next hplus =>
        refine (hrest.push rfl).render hw fun l hl => hlookup ?_
        simp only [Machine.lookup?, hcontrol, hframes, hplus, if_true]
        exact hl
      next => exact hrest.settle _
    | logical =>
      simp only [Machine.takeValue]
      split
      · exact hrest.yield v
      · exact hrest.eval _
    | assign href =>
      simp only [Machine.takeValue, Machine.assign]
      split
      · exact hrest.raise _
      next scope _ => exact (hrest.define scope href.1 v).control _
    | callee | argument =>
      refine hrest.arguments hw (fun id hes hv => ?_) fun cls hes hv => ?_
      · subst hes hv
        exact hcall (by simp [Machine.lookup?, hcontrol, hframes])
          (by simp [Machine.called?, hcontrol, hframes])
      · subst hes hv
        exact hlookup (by simp [Machine.lookup?, hcontrol, hframes])
    | get =>
      cases v with
      | object i => exact hrest.property (hlookup (by simp [Machine.lookup?, hcontrol, hframes]))
      | _ => exact hrest.raise _
    | setObject =>
      cases v with
      | object i => exact (hrest.push rfl).eval _
      | _ => exact hrest.raise _
    | @setField i name =>
      exact (hrest.extendSame (w := m.world.setField i name.lexeme v) rfl rfl rfl).control _
    | construct => exact hrest.yield _
    | «show» => exact hrest.control _
    | discard => exact hrest.complete _
    | printValue =>
      refine (hrest.push rfl).render hw fun l hl => hlookup ?_
      simp only [Machine.lookup?, hcontrol, hframes]
      exact hl
    | @branch s t =>
      simp only [Machine.takeValue]
      split
      · exact hrest.exec _
      · cases t with
        | none => exact hrest.complete _
        | some t => exact hrest.exec _
    | loopTest =>
      simp only [Machine.takeValue]
      split
      · exact (hrest.push rfl).exec _
      · exact hrest.complete _
    | ret => exact hrest.complete _

theorem takeText (hframes : m.frames = f :: fs) (h : m.Housed g) (text : String) :
    ({ m with frames := fs }.takeText host text f).Housed g := by
  have hrest := h.drop hframes
  cases f with
  | append left => exact hrest.yield _
  | printText =>
    have hprint := hrest.extendSame (w := (m.world.print host text).1) rfl rfl rfl
    simp only [Machine.takeText]
    split
    next w heq =>
      rw [heq] at hprint
      exact hprint.control _
    next w message heq =>
      rw [heq] at hprint
      exact hprint.control _
  | _ => exact hrest

theorem takeDone (hframes : m.frames = f :: fs) (h : m.Housed g) (c : Completion) :
    ({ m with frames := fs }.takeDone c f).Housed g := by
  have hrest := h.drop hframes
  cases f with
  | sequence rest outer =>
    have houter := h.outers (.sequence rest outer) (by simp [hframes]) outer rfl
    simp only [Machine.takeDone]
    split
    next s rest _ =>
      refine ⟨h.store, h.scope, fun f hf k hk => ?_⟩
      rcases List.mem_cons.1 hf with rfl | hf
      · obtain rfl : outer = k := by simpa [Frame.outer?] using hk
        exact houter
      · exact hrest.outers f hf k hk
    next => exact ⟨h.store, houter, hrest.outers⟩
  | loopBody e s =>
    cases c with
    | normal => exact (hrest.push rfl).eval e
    | returned v => exact hrest.complete _
  | body f => exact hrest.settle _
  | _ => exact hrest

theorem takeFault (hframes : m.frames = f :: fs) (h : m.Housed g) (fault : Fault) :
    ({ m with frames := fs }.takeFault fault f).Housed g := by
  have hrest := h.drop hframes
  cases f with
  | sequence rest outer =>
    refine ⟨h.store, h.scope, fun f hf => h.outers f ?_⟩
    rw [hframes]
    exact hf
  | _ => exact hrest.raise _

end Take

/-- The record agrees with the store after a step. -/
theorem step (h : m.Housed g) (hm : m.Sound R) : (m.step host).Housed (g.next m) := by
  have hnew := Homes.next_awaits (g := g) h.scope.1
  have hsuperclass := Homes.next_superclass g m
  -- the new record already agrees with the old store, so only what the step makes is left to check
  have hnext : m.Housed (g.next m) := ⟨h.store.next, h.scope, h.outers⟩
  generalize g.next m = g' at hnew hsuperclass hnext
  unfold Machine.step
  split
  next hcontrol => exact hnext.evalStep hcontrol hnew
  next s hcontrol =>
    cases hm with
    | exec hcontrol' hworld _ _ hs =>
      obtain rfl : _ = s := by simpa [hcontrol'] using hcontrol
      exact hnext.execStep hworld hs hcontrol hnew hsuperclass
    | eval h' | value h' | text h' | done h' | fault h' => simp [h'] at hcontrol
  next v f fs hcontrol hframes =>
    cases hm with
    | value _ hat => exact takeValue hframes hnext hat hcontrol hnew
    | eval h' | exec h' | text h' | done h' | fault h' => simp [h'] at hcontrol
  next text f fs _ hframes => exact takeText hframes hnext text
  next c f fs _ hframes => exact takeDone hframes hnext c
  next e f fs _ hframes => exact takeFault hframes hnext e
  next => exact hnext

theorem advance (h : m.Housed g) (hm : m.Sound R) (host : Host) (n : Nat) :
    (m.advance host n).Housed (Homes.follow host n g m) := by
  induction n generalizing g m with
  | zero => exact h
  | succ n ih =>
    rw [Machine.advance, Homes.follow]
    split
    · exact h
    · exact ih (h.step hm) hm.step

/-- `this` is the instance at home. -/
theorem read_this (h : m.Housed g) {kind : Awaited} (hat : m.At R kind fn ctx) {ref : Reference}
    (he : (Expr.this ref).Bound R ctx) :
    ∃ home, g.scopes m.scope = some home ∧
      m.world.read m.scope ref = .ok (.object home.object) := by
  obtain ⟨hname, -, d, hd, hrecorded⟩ := he
  obtain ⟨home, j, -, hhome, hj, hobject, -⟩ := h.store.innermost_this hat.fits hd
  refine ⟨home, hhome, ?_⟩
  simp [World.read, hat.distance? hrecorded, Store.valueAt, Store.valueAt?, hname, hj, hobject,
    Store.orUndefined]

/-- `super` stands for the superclass of the class at home, and for the instance at home. -/
theorem superParts (h : m.Housed g) {kind : Awaited} (hat : m.At R kind fn ctx) {ref : Reference}
    {name : Token} (he : (Expr.super ref name).Bound R ctx) :
    ∃ home superclass, g.scopes m.scope = some home ∧ g.superclass home.cls = some superclass ∧
      (m.world.store.classOf home.cls).superclass = some superclass ∧
      m.superParts ref = .ok (superclass, home.object) := by
  obtain ⟨d, superclass, -, hdistance, hsuper, -⟩ := hat.superValues he
  obtain ⟨hname, -, d', hthis, -, hrecorded⟩ := he
  obtain rfl : d = d' := by simpa [hdistance] using hat.distance? hrecorded
  obtain ⟨home, j, outer, hhome, hj, hobject, hlink, hsurrounds⟩ :=
    h.store.innermost_this hat.fits hthis
  have hcls : g.superclass home.cls = some superclass := by
    rw [Store.valueAt?, Store.scopeAt?_add_one hj, hlink, Option.bind_some, hsurrounds.super]
      at hsuper
    simpa using hsuper
  have hinstance : m.world.store.valueAt? m.scope d "this" = some (.object home.object) := by
    simp [Store.valueAt?, hj, hobject]
  refine ⟨home, superclass, hhome, hcls, ?_, ?_⟩
  · rw [← h.store.superclass _ hsurrounds.declared, hcls]
  · simp [Machine.superParts, hdistance, Store.valueAt, hname, hsuper, hinstance, Store.orUndefined,
      Token.named, Bind.bind, Except.bind, Pure.pure, Except.pure]

end Machine.Housed

end ClassScript
