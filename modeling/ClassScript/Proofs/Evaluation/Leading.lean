import ClassScript.Proofs.Evaluation.Grounding

/-! # Where a step leads

A step keeps to the limits of the code that the machine holds, and everything that was made stays
what it is.  At most one name is bound in a scope that was there, and which one can be told before
the step; and so can whether the step prints.
-/
namespace ClassScript

open Store (Lasts)

/-- Operators do not yield classes. -/
theorem unaryResult_declared {s : Store} {operator : Token} {v w : Value}
    (h : unaryResult operator v = .ok w) : w.Declared s := by
  rintro cls rfl
  unfold unaryResult at h
  split at h <;> cases h

theorem arithmetic_declared {s : Store} {kind : Token.Kind} {f : Number → Number → Value}
    (h : arithmetic? kind = some f) (x y : Number) : (f x y).Declared s := by
  intro cls hcls
  unfold arithmetic? at h
  split at h <;> cases h <;> cases hcls

theorem binaryResult_declared {s : Store} {operator : Token} {l r w : Value}
    (h : binaryResult operator l r = .ok w) : w.Declared s := by
  unfold binaryResult at h
  split at h
  · cases h
    exact Value.declared_of_ne (by simp)
  · cases h
    exact Value.declared_of_ne (by simp)
  · split at h
    · cases h
      exact Value.declared_of_ne (by simp)
    · cases h
  · split at h
    · cases h
    · cases h
      exact arithmetic_declared ‹_› _ _
    · cases h

namespace Machine

/-- The text that the next step prints. -/
def prints? (m : Machine) : Option String :=
  match m.control, m.frames with
  | .text s, .printText :: _ => some s
  | _, _ => none

/-- The scope and the name that the next step may bind, if it binds one in a scope that is there. -/
def binds? (m : Machine) : Option (Nat × String) :=
  match m.control, m.frames with
  | .exec s, _ => s.declared?.map fun name => (m.scope, name.lexeme)
  | .value _, .define name :: _ => some (m.scope, name.lexeme)
  | .value _, .assign ref :: _ => (m.world.target? m.scope ref).map fun k => (k, ref.name.lexeme)
  | _, _ => none

/-- A machine to which the next step of another one may lead. -/
structure Leads (L : Limits) (m m' : Machine) : Prop where
  grounded : m'.Grounded L
  lasts : Lasts m.world.store m'.world.store
  names : ∀ k name, k < m.world.store.nextScope → m.binds? ≠ some (k, name) →
    m'.world.store.own? k name = m.world.store.own? k name
  output : m.prints? = none → m'.world.output = m.world.output

namespace Leads

variable {L : Limits} {m m' : Machine} {host : Host} {v : Value} {c : Control} {w : World}

theorem refl (h : m.Grounded L) : Leads L m m :=
  ⟨h, .refl _, fun _ _ _ _ => rfl, fun _ => rfl⟩

theorem push (h : Leads L m m') (f : Frame) (houter : f.outer? = none)
    (hf : f.Grounded L m'.world.store m'.scope) : Leads L m (m'.push f) := by
  refine ⟨⟨h.grounded.store, h.grounded.scope, h.grounded.control, hf, ?_⟩, h.lasts, h.names,
    h.output⟩
  rw [houter]
  exact h.grounded.frames

theorem control (h : Leads L m m') (hc : c.Grounded L m'.world.store m'.scope) :
    Leads L m { m' with control := c } :=
  ⟨⟨h.grounded.store, h.grounded.scope, hc, h.grounded.frames⟩, h.lasts, h.names, h.output⟩

/-- The machine goes on in a later world. -/
theorem world (h : Leads L m m') (hw : World.Adds L.target m'.world w)
    (hc : c.Grounded L w.store m'.scope) : Leads L m { m' with control := c, world := w } where
  grounded := ⟨hw.grounded, Nat.lt_of_lt_of_le h.grounded.scope hw.lasts.scopes, hc,
    h.grounded.frames.mono hw.lasts⟩
  lasts := h.lasts.trans hw.lasts
  names k name hk hbinds := by
    rw [hw.names k name (Nat.lt_of_lt_of_le hk h.lasts.scopes), h.names k name hk hbinds]
  output hprints := hw.output.trans (h.output hprints)

/-- The name is bound that the machine was about to bind. -/
theorem define (h : Leads L m m') {k : Nat} {name : String} (hbinds : m.binds? = some (k, name))
    (hv : v.Declared m'.world.store)
    (hc : c.Grounded L (m'.world.define k name v).store m'.scope) :
    Leads L m { m' with control := c, world := m'.world.define k name v } where
  grounded := by
    refine ⟨h.grounded.store.define k name hv, ?_, hc, h.grounded.frames.mono (.define _ _ _ _)⟩
    rw [World.define, Store.nextScope_define]
    exact h.grounded.scope
  lasts := h.lasts.trans (.define _ _ _ _)
  names j other hj hne := by
    rw [World.define, Store.own?_define, if_neg ?_, h.names j other hj hne]
    rintro ⟨rfl, -, rfl⟩
    exact hne hbinds
  output := h.output

theorem settle (h : Leads L m m') {result : Except Fault Value}
    (hresult : ∀ v, result = .ok v → v.Declared m'.world.store) : Leads L m (m'.settle result) := by
  cases result with
  | ok v => exact h.control (hresult v rfl)
  | error f => exact h.control trivial

/-- A statement list is run in a new scope. -/
theorem runInside (h : Leads L m m') {enclosing : Nat}
    (henclosing : enclosing < m'.world.store.nextScope) {values : List Value}
    (hvalues : ∀ v ∈ values, v.Declared m'.world.store) {body : List Stmt}
    (hbody : L.Admits (Stmt.targetsAll body)) (names : List Token) :
    Leads L m (m'.runInside enclosing names values body) := by
  have hscope := World.Adds.addScope h.grounded.store henclosing
  have hadds := hscope.defineAll (Nat.le_refl _) names fun v hv =>
    hscope.lasts.declared (hvalues v hv)
  have hnew : m'.world.store.nextScope <
      ((m'.world.addScope (some enclosing)).defineAll m'.world.store.nextScope names
        values).store.nextScope := by
    simp [World.addScope]
  have hlater := h.world hadds (c := .done .normal) trivial
  -- the new scope is not the global one, so its statements may declare what they like
  refine ⟨⟨hlater.grounded.store, hnew, trivial, ⟨?_, hlater.grounded.scope⟩,
    hlater.grounded.frames⟩, hlater.lasts, hlater.names, hlater.output⟩
  exact Stmt.within_of_admits (Nat.ne_of_gt h.grounded.store.global) hbody

theorem apply (h : Leads L m m') {c : Closure} (hc : c.Grounded L.target m'.world.store)
    {arguments : List Value} (harguments : ∀ v ∈ arguments, v.Declared m'.world.store) :
    Leads L m (m'.apply c arguments) := by
  have hbody : L.Admits (Stmt.targetsAll c.declaration.body) := by
    have htargets := hc.targets
    cases hdeclaration : c.declaration
    rw [hdeclaration] at htargets
    exact htargets
  exact (h.push (.body c) rfl trivial).runInside hc.scope harguments hbody _

theorem applyMethod (h : Leads L m m') {method : Closure}
    (hmethod : method.Grounded L.target m'.world.store) (object : Nat) {arguments : List Value}
    (harguments : ∀ v ∈ arguments, v.Declared m'.world.store) :
    Leads L m (m'.applyMethod method object arguments) := by
  obtain ⟨hadds, hbound⟩ := World.Adds.bindMethod h.grounded.store hmethod object
  have hlater := h.world hadds (h.grounded.control.mono hadds.lasts)
  exact hlater.apply hbound fun v hv => hadds.lasts.declared (harguments v hv)

theorem construct (h : Leads L m m') (cls : Nat) {arguments : List Value}
    (harguments : ∀ v ∈ arguments, v.Declared m'.world.store) :
    Leads L m (m'.construct cls arguments) := by
  have hadds := World.Adds.addObject h.grounded.store cls
  have hlater := h.world hadds (h.grounded.control.mono hadds.lasts)
  unfold Machine.construct
  cases hmethod : m'.world.store.method? cls initializerName with
  | none => exact hlater.control (Value.declared_of_ne (by simp))
  | some method =>
    refine (hlater.push (.construct _) rfl trivial).applyMethod ?_ _ harguments
    exact hadds.lasts.closure (h.grounded.store.method hmethod)

theorem clock (h : Leads L m m') (paren : Token) (arguments : List Value) :
    Leads L m (m'.applyNative host .clock paren arguments) := by
  have hadds : World.Adds L.target m'.world m'.world.readClock :=
    ⟨h.grounded.store, .refl _, fun _ _ _ => rfl, rfl⟩
  apply (h.world hadds h.grounded.control).settle
  intro v hv
  cases htime : host.clock m'.world.clockReads with
  | error reason =>
    rw [htime] at hv
    cases hv
  | ok now =>
    rw [htime] at hv
    obtain rfl : Value.number now = v := Except.ok.inj hv
    exact Value.declared_of_ne (by simp)

theorem call (h : Leads L m m') (callee : Value) (paren : Token) {arguments : List Value}
    (harguments : ∀ v ∈ arguments, v.Declared m'.world.store) :
    Leads L m (m'.call host callee paren arguments) := by
  unfold Machine.call
  split
  · exact h.control trivial
  · split
    · split
      · exact h.apply (h.grounded.store.functions _) harguments
      · rw [h.grounded.store.natives]
        exact h.clock _ _
      · exact h.construct _ harguments
      · exact h.control trivial
    · exact h.control trivial

theorem arguments (h : Leads L m m') {callee : Value} (hcallee : callee.Declared m'.world.store)
    (paren : Token) {before : List Value} (hbefore : ∀ v ∈ before, v.Declared m'.world.store)
    {after : List Expr} (hafter : L.Admits (Expr.targetsAll after)) :
    Leads L m (m'.arguments host callee paren before after) := by
  cases after with
  | nil =>
    refine h.call _ _ fun v hv => ?_
    exact hbefore v (List.mem_reverse.1 hv)
  | cons e after =>
    rw [Expr.targetsAll, Limits.admits_append] at hafter
    exact (h.push (.argument callee paren before after) rfl
      ⟨hcallee, hbefore, hafter.2⟩).control hafter.1

theorem render (h : Leads L m m') (v : Value) : Leads L m (m'.render v) := by
  unfold Machine.render
  split
  · split
    next method hmethod =>
      obtain ⟨hmethod, -⟩ := Option.filter_eq_some_iff.1 hmethod
      exact (h.push .show rfl trivial).applyMethod (h.grounded.store.method hmethod) _ (by simp)
    next => exact h.control trivial
  · exact h.control trivial

theorem binary (h : Leads L m m') (operator : Token) (l r : Value) :
    Leads L m (m'.binary operator l r) := by
  unfold Machine.binary
  split
  · exact (h.push (.append _) rfl trivial).render _
  · exact h.settle fun _ => binaryResult_declared

theorem methodValue (h : Leads L m m') {method : Closure}
    (hmethod : method.Grounded L.target m'.world.store) (object : Nat) :
    Leads L m { m' with
      control := .value (m'.world.methodValue method object).2
      world := (m'.world.methodValue method object).1 } :=
  h.world (World.Adds.methodValue h.grounded.store hmethod object)
    (Value.declared_of_ne (by simp [World.methodValue]))

theorem property (h : Leads L m m') (object : Nat) (name : Token) :
    Leads L m (m'.property object name) := by
  unfold Machine.property
  split
  next v hv => exact h.control (h.grounded.store.fields object name.lexeme v hv)
  next =>
    split
    next => exact h.control trivial
    next method hmethod => exact h.methodValue (h.grounded.store.method hmethod) object

theorem superMethod (h : Leads L m m') (ref : Reference) (name : Token) :
    Leads L m (m'.superMethod ref name) := by
  unfold Machine.superMethod
  split
  · exact h.control trivial
  · split
    next => exact h.control trivial
    next method hmethod => exact h.methodValue (h.grounded.store.method hmethod) _

/-- A name is rebound in the scope in which it is bound. -/
theorem assign (h : Leads L m m') {ref : Reference} (hv : v.Declared m'.world.store)
    (hbinds : m.binds? = (m'.world.target? m'.scope ref).map fun k => (k, ref.name.lexeme)) :
    Leads L m (m'.assign ref v) := by
  unfold Machine.assign
  split
  next => exact h.control trivial
  next k hk =>
    rw [hk] at hbinds
    exact h.define hbinds hv ((Lasts.define _ _ _ _).declared hv)

theorem methodTable {s : Store} {scope : Nat} (hscope : scope < s.nextScope)
    {methods : List FunctionDecl} (hmethods : L.Admits (FunctionDecl.targetsAll methods))
    (name : String) (c : Closure) (hc : (name, c) ∈ (Machine.methodTable scope methods).entries) :
    c.Grounded L.target s := by
  obtain ⟨d, hd, rfl⟩ := mem_methodTable hc
  exact ⟨hscope, fun ref href => hmethods ref (FunctionDecl.targets_subset hd href)⟩

theorem declareClass (h : Leads L m m') {name : Token}
    (hbinds : m.binds? = some (m'.scope, name.lexeme)) {superclass : Option Nat}
    (hsuperclass : ∀ id ∈ superclass, id < m'.world.store.nextClass) {methods : List FunctionDecl}
    (hmethods : L.Admits (FunctionDecl.targetsAll methods)) :
    Leads L m (m'.declareClass name superclass methods) := by
  have hdeclared {w : World} {c : Class} (hw : World.Adds L.target m'.world w)
      (hc : World.Adds L.target w (w.addClass c))
      (hsame : w.store.nextClass = m'.world.store.nextClass) :
      Leads L m { m' with
        control := .done .normal
        world := (w.addClass c).define m'.scope name.lexeme
          (.cls m'.world.store.nextClass) } := by
    have hlater := h.world (hw.trans hc) (c := .done .normal) trivial
    refine hlater.define hbinds (fun cls hcls => ?_) trivial
    obtain rfl : m'.world.store.nextClass = cls := Value.cls.inj hcls
    simp [World.addClass, hsame]
  cases superclass with
  | none =>
    refine hdeclared (.refl h.grounded.store) (.addClass h.grounded.store (by simp) ?_) rfl
    exact methodTable h.grounded.scope hmethods
  | some id =>
    have hid : (Value.cls id).Declared (m'.world.addScope (some m'.scope)).store := by
      intro cls hcls
      obtain rfl : id = cls := Value.cls.inj hcls
      exact hsuperclass id rfl
    have hadds := (World.Adds.addScope h.grounded.store h.grounded.scope).define
      (Nat.le_refl _) "super" hid
    refine hdeclared hadds (.addClass hadds.grounded ?_ ?_) rfl
    · intro superclass heq
      obtain rfl : id = superclass := Option.some.inj heq
      exact hsuperclass id rfl
    · refine methodTable ?_ hmethods
      simp [World.define, World.addScope]

theorem evalStep (h : m.Grounded L) {e : Expr} (he : L.Admits e.targets) :
    Leads L m (m.evalStep e) := by
  have hread (ref : Reference) : Leads L m (m.settle (m.world.read m.scope ref)) :=
    (refl h).settle fun v hv => h.store.read hv
  cases e with
  | constant c =>
    refine (refl h).control fun cls hcls => ?_
    cases c <;> cases hcls
  | grouping e => exact (refl h).control he
  | unary operator e => exact ((refl h).push (.unary operator) rfl trivial).control he
  | binary l operator r =>
    obtain ⟨hl, hr⟩ := Limits.admits_append.1 he
    exact ((refl h).push (.left operator r) rfl hr).control hl
  | logical l operator r =>
    obtain ⟨hl, hr⟩ := Limits.admits_append.1 he
    exact ((refl h).push (.logical operator r) rfl hr).control hl
  | set e name e' =>
    obtain ⟨he, he'⟩ := Limits.admits_append.1 he
    exact ((refl h).push (.setObject name e') rfl he').control he
  | «variable» ref | this ref => exact hread ref
  | assign target e =>
    obtain ⟨htarget, he⟩ := Limits.admits_cons.1 he
    exact ((refl h).push (.assign target) rfl htarget).control he
  | call f paren es =>
    obtain ⟨hf, hes⟩ := Limits.admits_append.1 he
    exact ((refl h).push (.callee paren es) rfl hes).control hf
  | get e name => exact ((refl h).push (.get name) rfl trivial).control he
  | super ref method => exact (refl h).superMethod ref method

theorem superclass {s : Option Reference} {cls : Option Nat} (h : m.Grounded L)
    (hs : m.superclass s = .ok cls) : ∀ id ∈ cls, id < m.world.store.nextClass := by
  cases s with
  | none =>
    obtain rfl : none = cls := Except.ok.inj hs
    simp
  | some ref =>
    cases hread : m.world.read m.scope ref with
    | error f => simp [Machine.superclass, hread, Bind.bind, Except.bind] at hs
    | ok v =>
      have hv := h.store.read hread
      cases v with
      | cls i =>
        obtain rfl : some i = cls := by
          simpa [Machine.superclass, hread, Bind.bind, Except.bind, Pure.pure, Except.pure] using hs
        intro id hid
        obtain rfl : i = id := Option.some.inj hid
        exact hv i rfl
      | _ => simp [Machine.superclass, hread, Bind.bind, Except.bind] at hs

theorem execStep {s : Stmt} (h : m.Grounded L) (hcontrol : m.control = .exec s)  :
    Leads L m (m.execStep s) := by
  have hs : s.Within L m.scope := by
    have hc := h.control
    rw [hcontrol] at hc
    exact hc
  have hbinds : m.binds? = s.declared?.map fun name => (m.scope, name.lexeme) := by
    simp only [binds?, hcontrol]
  cases s with
  | expression e => exact ((refl h).push .discard rfl trivial).control hs.targets
  | print e => exact ((refl h).push .printValue rfl trivial).control hs.targets
  | var name initial =>
    cases initial with
    | none => exact (refl h).define hbinds (Value.declared_of_ne (by simp)) trivial
    | some e =>
      have hname : m.scope = globalScope → L.declared name := fun hk =>
        hs.declares hk name (by simp [Stmt.declares])
      exact ((refl h).push (.define name) rfl hname).control hs.targets
  | block body => exact (refl h).runInside h.scope (by simp) hs.targets []
  | branch c s negative =>
    obtain ⟨hc, hbranches⟩ := hs.branch
    exact ((refl h).push (.branch s negative) rfl hbranches).control hc
  | loop c s =>
    obtain ⟨hc, hbody⟩ := hs.loop
    exact ((refl h).push (.loopTest c s) rfl ⟨hc, hbody⟩).control hc
  | function d =>
    have hadds := World.Adds.addFunction h.store (c := ⟨d, m.scope, false⟩) ⟨h.scope, hs.targets⟩
    exact ((refl h).world hadds (c := .done .normal) trivial).define hbinds
      (Value.declared_of_ne (by simp)) trivial
  | cls name superclass methods =>
    rw [Machine.execStep]
    split
    next => exact (refl h).control trivial
    next id hid => exact (refl h).declareClass hbinds (Leads.superclass h hid) hs.targets
  | ret keyword value =>
    cases value with
    | none => exact (refl h).control (Value.declared_of_ne (by simp))
    | some e => exact ((refl h).push .ret rfl trivial).control hs.targets

/-- A frame that waits in the current scope is taken away. -/
theorem pop (h : m.Grounded L) {f : Frame} {fs : List Frame} (hframes : m.frames = f :: fs)
    (houter : f.outer? = none) :
    f.Grounded L m.world.store m.scope ∧ Leads L m { m with frames := fs } := by
  have hall := h.frames
  rw [hframes] at hall
  obtain ⟨hf, hfs⟩ := hall
  rw [houter] at hfs
  exact ⟨hf, ⟨h.store, h.scope, h.control, hfs⟩, .refl _, fun _ _ _ _ => rfl, fun _ => rfl⟩

theorem takeValue (h : m.Grounded L) (hcontrol : m.control = .value v) {f : Frame}
    {fs : List Frame} (hframes : m.frames = f :: fs) (houter : f.outer? = none) :
    Leads L m ({ m with frames := fs }.takeValue host v f) := by
  obtain ⟨hf, hpop⟩ := pop h hframes houter
  have hv : v.Declared m.world.store := by
    have hc := h.control
    rw [hcontrol] at hc
    exact hc
  cases f with
  | unary operator => exact hpop.settle fun _ => unaryResult_declared
  | left operator e => exact (hpop.push (.right operator v) rfl hv).control hf
  | right operator l => exact hpop.binary _ _ _
  | logical operator e =>
    rw [Machine.takeValue]
    split
    · exact hpop.control hv
    · exact hpop.control hf
  | assign target => exact hpop.assign hv (by simp [binds?, hcontrol, hframes])
  | callee paren es => exact hpop.arguments hv paren (by simp) hf
  | argument callee paren before after =>
    obtain ⟨hcallee, hbefore, hafter⟩ := hf
    exact hpop.arguments hcallee paren (List.forall_mem_cons.2 ⟨hv, hbefore⟩) hafter
  | get name =>
    cases v with
    | object id => exact hpop.property _ _
    | _ => exact hpop.control trivial
  | setObject name e =>
    cases v with
    | object id => exact (hpop.push (.setField id name) rfl trivial).control hf
    | _ => exact hpop.control trivial
  | setField id name => exact hpop.world (.setField h.store id name.lexeme hv) hv
  | construct id => exact hpop.control (Value.declared_of_ne (by simp))
  | «show» => exact hpop.control trivial
  | discard => exact hpop.control trivial
  | printValue => exact (hpop.push .printText rfl trivial).render _
  | define name => exact hpop.define (by simp [binds?, hcontrol, hframes]) hv trivial
  | branch s negative =>
    simp only [Machine.takeValue]
    split
    · exact hpop.control hf.1
    · cases negative with
      | none => exact hpop.control trivial
      | some t => exact hpop.control (hf.2 t rfl)
  | loopTest c s =>
    rw [Machine.takeValue]
    split
    · exact (hpop.push (.loopBody c s) rfl hf).control hf.2
    · exact hpop.control trivial
  | ret => exact hpop.control hv
  | _ => exact hpop

theorem takeText (h : m.Grounded L) {text : String} (hcontrol : m.control = .text text) {f : Frame}
    {fs : List Frame} (hframes : m.frames = f :: fs) (houter : f.outer? = none) :
    Leads L m ({ m with frames := fs }.takeText host text f) := by
  obtain ⟨hf, hpop⟩ := pop h hframes houter
  cases f with
  | append left => exact hpop.control (Value.declared_of_ne (by simp))
  | printText =>
    have hprints : m.prints? = some text := by simp [prints?, hcontrol, hframes]
    have hprinted {w : World} {c : Control} (hw : w.store = m.world.store)
        (hc : c.Grounded L w.store m.scope) :
        Leads L m { m with control := c, frames := fs, world := w } := by
      refine ⟨⟨?_, ?_, hc, ?_⟩, ?_, fun k name _ _ => by rw [hw], fun hnone => ?_⟩
      · exact hw ▸ h.store
      · exact hw ▸ h.scope
      · exact hw ▸ hpop.grounded.frames
      · exact hw ▸ .refl _
      · rw [hprints] at hnone
        cases hnone
    have hstore : (m.world.print host text).1.store = m.world.store := rfl
    rw [Machine.takeText]
    generalize m.world.print host text = printed at hstore
    obtain ⟨w, refusal⟩ := printed
    cases refusal with
    | none => exact hprinted hstore trivial
    | some message => exact hprinted hstore trivial
  | _ => exact hpop

theorem callResult (h : m.world.store.Grounded L.target) {f : Closure} {c : Completion}
    (hc : c.Grounded m.world.store) (hv : m.callResult f c = .ok v) :
    v.Declared m.world.store := by
  unfold Machine.callResult at hv
  split at hv
  · split at hv
    next this hthis =>
      obtain rfl : this = v := Except.ok.inj hv
      exact h.names _ _ _ hthis
    next => cases hv
  · cases c with
    | normal =>
      obtain rfl : .nil = v := Except.ok.inj hv
      exact Value.declared_of_ne (by simp)
    | returned v' =>
      obtain rfl : v' = v := Except.ok.inj hv
      exact hc

theorem takeDone (h : m.Grounded L) {c : Completion} (hcontrol : m.control = .done c) {f : Frame}
    {fs : List Frame} (hframes : m.frames = f :: fs) :
    Leads L m ({ m with frames := fs }.takeDone c f) := by
  have hc : c.Grounded m.world.store := by
    have hc := h.control
    rw [hcontrol] at hc
    exact hc
  have hall := h.frames
  rw [hframes] at hall
  cases f with
  | sequence rest outer =>
    obtain ⟨⟨hrest, houter⟩, hfs⟩ := hall
    -- the frames below wait in the scope to which the list returns
    have hleave : Leads L m { m with frames := fs, control := .done c, scope := outer } :=
      ⟨⟨h.store, houter, hc, hfs⟩, .refl _, fun _ _ _ _ => rfl, fun _ => rfl⟩
    cases c with
    | returned v => exact hleave
    | normal =>
      cases rest with
      | nil => exact hleave
      | cons s rest =>
        obtain ⟨hs, hrest⟩ := List.forall_mem_cons.1 hrest
        exact ⟨⟨h.store, h.scope, hs, ⟨hrest, houter⟩, hfs⟩, .refl _, fun _ _ _ _ => rfl,
          fun _ => rfl⟩
  | loopBody condition s =>
    obtain ⟨hf, hpop⟩ := pop h hframes rfl
    cases c with
    | normal => exact (hpop.push (.loopTest condition s) rfl hf).control hf.1
    | returned v => exact hpop.control hc
  | body f =>
    obtain ⟨-, hpop⟩ := pop h hframes rfl
    exact hpop.settle fun v => callResult h.store hc
  | _ => exact (pop h hframes rfl).2

theorem takeFault (h : m.Grounded L) {fault : Fault} {f : Frame} {fs : List Frame}
    (hframes : m.frames = f :: fs) : Leads L m ({ m with frames := fs }.takeFault fault f) := by
  cases f with
  | sequence rest outer =>
    have hall := h.frames
    rw [hframes] at hall
    exact ⟨⟨h.store, h.scope, trivial, hall⟩, .refl _, fun _ _ _ _ => rfl, fun _ => rfl⟩
  | _ => exact (pop h hframes rfl).2.control trivial

end Leads

variable {L : Limits} {m : Machine} {host : Host}

/-- Where a step leads. -/
theorem Grounded.step (h : m.Grounded L) (hregular : m.Regular) (host : Host) :
    Leads L m (m.step host) := by
  obtain ⟨control, frames, scope, world⟩ := m
  cases control with
  | eval e => exact .evalStep h h.control
  | exec s => exact .execStep h rfl
  | value v =>
    cases frames with
    | nil => exact .refl h
    | cons f fs => exact .takeValue h rfl rfl (hregular f fs rfl (.inl ⟨v, rfl⟩))
  | text text =>
    cases frames with
    | nil => exact .refl h
    | cons f fs => exact .takeText h rfl rfl (hregular f fs rfl (.inr ⟨text, rfl⟩))
  | done c =>
    cases frames with
    | nil => exact .refl h
    | cons f fs => exact .takeDone h rfl rfl
  | fault fault =>
    cases frames with
    | nil => exact .refl h
    | cons f fs => exact .takeFault h rfl

/-- However far a machine in order goes, it keeps to its limits, and what was made stays. -/
theorem Grounded.advance {R : Recorded} (h : m.Grounded L) (hsound : m.Sound R) (host : Host)
    (n : Nat) : (m.advance host n).Grounded L ∧
      Lasts m.world.store (m.advance host n).world.store := by
  have hkept := advance_keeps host
    (P := fun m' => m'.Sound R ∧ m'.Grounded L ∧ Lasts m.world.store m'.world.store)
    (fun m' hm' => ?_) ⟨hsound, h, .refl _⟩ n
  · exact hkept.2
  · obtain ⟨hsound', hgrounded, hlasts⟩ := hm'
    have hleads := hgrounded.step hsound'.regular host
    exact ⟨hsound'.step, hleads.grounded, hlasts.trans hleads.lasts⟩

end Machine

end ClassScript
