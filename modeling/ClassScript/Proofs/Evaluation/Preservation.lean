import ClassScript.Proofs.Evaluation.Growth
import ClassScript.Proofs.Evaluation.Stepping

/-! # Steps keep machines in order

One lemma for each operation of the machine, and from them that a step leads from a machine in order
to a machine in order.
-/
namespace ClassScript

open Store (Fits Grows Holds)

theorem Fault.possible_undefined {name : Token} (h : name.IsPlain) :
    (Fault.undefined name).Possible :=
  fun himplicit => Store.not_isImplicit h himplicit

theorem unaryResult_possible {operator : Token} {v : Value} {f : Fault}
    (h : unaryResult operator v = .error f) : f.Possible := by
  unfold unaryResult at h
  split at h <;> cases h <;> exact id

theorem binaryResult_possible {operator : Token} {l r : Value} {f : Fault}
    (h : binaryResult operator l r = .error f) : f.Possible := by
  unfold binaryResult at h
  split at h
  · cases h
  · cases h
  · split at h <;> cases h
    exact id
  · split at h <;> cases h <;> exact id

namespace Machine

variable {R : Recorded} {m : Machine} {fn : FunctionContext} {ctx : Context} {host : Host}

theorem At.distance? {kind : Awaited} (h : m.At R kind fn ctx) {ref : Reference} {d : Option Nat}
    (hd : R ref.id d) : m.world.distance? ref = d :=
  h.world.recorded ref.id d hd

/-- A read that fails does so because its name is undefined. -/
theorem read_error {w : World} {scope : Nat} {ref : Reference} {f : Fault}
    (h : w.read scope ref = .error f) : f = .undefined ref.name := by
  have horUndefined {v : Option Value} (h : Store.orUndefined ref.name v = .error f) :
      f = .undefined ref.name := by
    cases v with
    | some v => cases h
    | none => simpa [Store.orUndefined] using h.symm
  unfold World.read at h
  split at h <;> exact horUndefined h

theorem At.read_this {kind : Awaited} (h : m.At R kind fn ctx) {ref : Reference}
    (he : (Expr.this ref).Bound R ctx) :
    ∃ object, m.world.read m.scope ref = .ok (.object object) := by
  obtain ⟨hname, -, d, hd, hrecorded⟩ := he
  obtain ⟨object, hobject⟩ := h.fits.this hd
  refine ⟨object, ?_⟩
  simp [World.read, h.distance? hrecorded, Store.valueAt, hname, hobject, Store.orUndefined]

/-- `super` stands for a class, and one scope inside there is an instance. -/
theorem At.superValues {kind : Awaited} (h : m.At R kind fn ctx) {ref : Reference} {method : Token}
    (he : (Expr.super ref method).Bound R ctx) :
    ∃ d cls object, m.world.distance? ref = some (d + 1) ∧
      m.world.store.valueAt? m.scope (d + 1) "super" = some (.cls cls) ∧
      m.world.store.valueAt? m.scope d "this" = some (.object object) := by
  obtain ⟨-, -, d, hthis, hsuper, hrecorded⟩ := he
  obtain ⟨object, hobject⟩ := h.fits.this hthis
  obtain ⟨cls, hcls⟩ := h.fits.super hsuper
  exact ⟨d, cls, object, h.distance? hrecorded, hcls, hobject⟩

theorem At.superParts {kind : Awaited} (h : m.At R kind fn ctx) {ref : Reference} {method : Token}
    (he : (Expr.super ref method).Bound R ctx) :
    ∃ cls object, m.superParts ref = .ok (cls, object) := by
  obtain ⟨d, cls, object, hd, hcls, hobject⟩ := h.superValues he
  refine ⟨cls, object, ?_⟩
  simp [Machine.superParts, hd, Store.valueAt, he.1, hcls, hobject, Store.orUndefined, Token.named,
    Bind.bind, Except.bind, Pure.pure, Except.pure]

theorem At.runInside {outer : Nat} {ctx' : Context} {names : List Token} {values : List Value}
    {body : List Stmt} (h : m.At R .done fn ctx)
    (hfits : Fits m.world.Clean m.world.store ctx'.scopes outer)
    (hnames : ∀ p ∈ names, p.IsPlain) (hlength : values.length = names.length)
    (hbody : Stmt.BoundAll R fn (ctx'.enter (parameterScope names)) body) :
    (m.runInside outer names values body).Sound R := by
  have hadd := World.Extends.addScope h.world (some outer)
  have hall := World.Extends.defineAll (hadd.world h.world) m.world.store.nextScope hnames values
  have hextends := hadd.trans hall
  have hat := h.extend hextends
  have hinner : Fits m.world.Clean _ (ctx'.enter (parameterScope names)).scopes _ :=
    World.fits_call h.world hfits hnames hlength
  rw [← hextends.clean] at hinner
  exact .done rfl ⟨hat.world, hinner, .sequence hbody hat.fits hat.stack⟩ trivial

theorem At.apply {c : Closure} {arguments : List Value} (h : m.At R .value fn ctx)
    (hc : c.Ready R m.world.Clean m.world.store)
    (hlength : arguments.length = c.declaration.arity) : (m.apply c arguments).Sound R := by
  obtain ⟨fn', ctx', -, hbound, hfits, hinitializer⟩ := hc
  have hpush : (m.push (.body c)).At R .done fn' ctx :=
    ⟨h.world, h.fits, .body hinitializer h.stack⟩
  obtain ⟨⟨name, parameters, body⟩, scope, isInitializer⟩ := c
  exact hpush.runInside hfits hbound.2.1 hlength hbound.2.2

theorem At.applyMethod {method : Closure} {object : Nat} {arguments : List Value}
    (h : m.At R .value fn ctx) (hmethod : method.ReadyMethod R m.world.Clean m.world.store)
    (hlength : arguments.length = method.declaration.arity) :
    (m.applyMethod method object arguments).Sound R := by
  obtain ⟨hextends, hready⟩ := World.bindMethod_ready h.world hmethod object
  refine (h.extend hextends).apply ?_ hlength
  rw [hextends.clean]
  exact hready

theorem At.construct {cls : Nat} {arguments : List Value} (h : m.At R .value fn ctx)
    (hlength : arguments.length = m.world.store.classArity cls) :
    (m.construct cls arguments).Sound R := by
  have hextends : World.Extends R m.world (m.world.addObject cls) :=
    .keep h.world rfl rfl (.ofScopes rfl) rfl rfl rfl
  have hat := h.extend hextends
  unfold Machine.construct
  cases hmethod : m.world.store.method? cls initializerName with
  | none => exact hat.yield _
  | some method =>
    refine (hat.push .construct).applyMethod ?_ ?_
    · exact (h.world.store.method hmethod).mono hextends.grows id
    · rw [hlength, Store.classArity, hmethod]
      rfl

/-- Reading the clock fails with the reason that the host gives. -/
theorem clock_error {n : Nat} {paren : Token} {f : Fault}
    (h : ((host.clock n).map Value.number).mapError
      (fun reason => Fault.ofToken paren (.clock reason)) = .error f) :
    ∃ reason, host.clock n = .error reason ∧ f = .ofToken paren (.clock reason) := by
  cases htime : host.clock n with
  | ok now =>
    rw [htime] at h
    cases h
  | error reason =>
    rw [htime] at h
    exact ⟨reason, rfl, (Except.error.inj h).symm⟩

theorem At.call {callee : Value} {paren : Token} {arguments : List Value}
    (h : m.At R .value fn ctx) : (m.call host callee paren arguments).Sound R := by
  unfold Machine.call
  split
  · exact h.raise id
  next arity harity =>
    split
    next hlength =>
      split
      next i =>
        obtain rfl : (m.world.store.closure i).declaration.arity = arity := by
          simpa [Machine.arity?] using harity
        exact h.apply (h.world.store.functions i) hlength
      next i =>
        rw [h.world.store.natives i]
        have hextends : World.Extends R m.world m.world.readClock :=
          .keep h.world rfl rfl (.refl _) rfl rfl rfl
        apply (h.extend hextends).settle
        intro f hf
        obtain ⟨reason, -, rfl⟩ := clock_error hf
        exact id
      next i =>
        obtain rfl : m.world.store.classArity i = arity := by simpa [Machine.arity?] using harity
        exact h.construct hlength
      next => exact h.raise id
    next => exact h.raise id

theorem At.arguments {callee : Value} {paren : Token} {before : List Value} {es : List Expr}
    (h : m.At R .value fn ctx) (hes : Expr.BoundAll R ctx es) :
    (m.arguments host callee paren before es).Sound R := by
  cases es with
  | nil => exact h.call
  | cons e es => exact (h.push (.argument hes.2)).eval hes.1

theorem At.render {v : Value} (h : m.At R .text fn ctx) : (m.render v).Sound R := by
  unfold Machine.render
  split
  · split
    next method hmethod =>
      obtain ⟨hmethod, harity⟩ := Option.filter_eq_some_iff.1 hmethod
      have hzero : method.declaration.arity = 0 := by simpa using harity
      exact (h.push .show).applyMethod (h.world.store.method hmethod) hzero.symm
    next => exact h.yieldText _
  · exact h.yieldText _

theorem At.binary {operator : Token} {l r : Value} (h : m.At R .value fn ctx) :
    (m.binary operator l r).Sound R := by
  unfold Machine.binary
  split
  · exact (h.push .append).render
  · exact h.settle fun _ => binaryResult_possible

/-- A method is taken from an instance as a value. -/
theorem At.methodValue {method : Closure} {object : Nat} (h : m.At R .value fn ctx)
    (hmethod : method.ReadyMethod R m.world.Clean m.world.store) :
    Machine.Sound R { m with
      control := .value (m.world.methodValue method object).2
      world := (m.world.methodValue method object).1 } :=
  (h.extend (World.methodValue_extends h.world hmethod object)).yield _

theorem At.property {object : Nat} {name : Token} (h : m.At R .value fn ctx) :
    (m.property object name).Sound R := by
  unfold Machine.property
  split
  · exact h.yield _
  · split
    · exact h.raise id
    next method hmethod => exact h.methodValue (h.world.store.method hmethod)

theorem At.superMethod {ref : Reference} {name : Token} (h : m.At R .value fn ctx)
    (he : (Expr.super ref name).Bound R ctx) : (m.superMethod ref name).Sound R := by
  obtain ⟨cls, object, hparts⟩ := h.superParts he
  unfold Machine.superMethod
  rw [hparts]
  simp only
  split
  · exact h.raise id
  next method hmethod => exact h.methodValue (h.world.store.method hmethod)

theorem At.assign {ref : Reference} {v : Value} (h : m.At R .value fn ctx)
    (href : ref.Resolves R ctx.scopes) : (m.assign ref v).Sound R := by
  unfold Machine.assign
  split
  · exact h.raise (Fault.possible_undefined href.1)
  next scope _ =>
    exact (h.extend (World.Extends.definePlain h.world scope href.1 v)).yield v

/-- The current scope gets a name that may be read from then on. -/
theorem fits_define {clean : Prop} {s : Store} {Γ : Scopes} {k : Nat} {name : Token}
    (h : Fits clean s Γ k) (hname : name.IsPlain) (v : Value) :
    Fits clean (s.define k name.lexeme v) (Γ.mark name.lexeme true) k := by
  have hgrows : Grows s (s.define k name.lexeme v) :=
    .define s k v (Store.not_isImplicit hname)
  refine (h.grow hgrows).mark hname fun _ _ hne => ?_
  cases Γ with
  | nil => exact absurd rfl hne
  | cons scope Γ =>
    obtain ⟨-, -, outer, houter, -⟩ := h
    simp [Store.own?_define, Store.lt_of_enclosing houter]

/-- A declaration ends in a later world, in which its name may be read. -/
theorem sound_declared {w : World} {name : Token} (hworld : m.world.Sound R)
    (hstack : Stack R m.world.Clean m.world.store .done fn (ctx.mark name true) m.scope m.frames)
    (hextends : World.Extends R m.world w)
    (hfits : Fits m.world.Clean w.store (ctx.mark name true).scopes m.scope) :
    Machine.Sound R { m with control := .done .normal, world := w } := by
  have hat : Machine.At R { m with control := .done .normal, world := w } .done fn
      (ctx.mark name true) := by
    refine ⟨hextends.world hworld, ?_, ?_⟩
    · rw [hextends.clean]
      exact hfits
    · rw [hextends.clean]
      exact hstack.mono hextends.grows id
  exact .done rfl hat trivial

/-- A declaration ends: its name is bound in the current scope. -/
theorem sound_define {w : World} {name : Token} (hextends : World.Extends R m.world w)
    (hworld : m.world.Sound R) (hfits : Fits m.world.Clean m.world.store ctx.scopes m.scope)
    (hstack : Stack R m.world.Clean m.world.store .done fn (ctx.mark name true) m.scope m.frames)
    (hname : name.IsPlain) (v : Value) :
    Machine.Sound R { m with
      control := .done .normal
      world := w.define m.scope name.lexeme v } :=
  sound_declared hworld hstack
    (hextends.trans (World.Extends.definePlain (hextends.world hworld) m.scope hname v))
    (fits_define (hfits.grow hextends.grows) hname v)

theorem mem_methodTable {scope : Nat} {methods : List FunctionDecl} {name : String} {c : Closure}
    (h : (name, c) ∈ (methodTable scope methods).entries) :
    ∃ d ∈ methods, c = ⟨d, scope, decide (d.name.lexeme = initializerName)⟩ := by
  have hfold (table : Bindings Closure) (methods : List FunctionDecl)
      (h : (name, c) ∈ (methods.foldl (fun table d => table.insert d.name.lexeme
        ⟨d, scope, decide (d.name.lexeme = initializerName)⟩) table).entries) :
      (name, c) ∈ table.entries ∨
        ∃ d ∈ methods, c = ⟨d, scope, decide (d.name.lexeme = initializerName)⟩ := by
    induction methods generalizing table with
    | nil => exact .inl h
    | cons d methods ih =>
      rcases ih _ h with htable | ⟨d', hd', hc⟩
      · rcases Bindings.mem_insert htable with htable | hc
        · exact .inl htable
        · exact .inr ⟨d, by simp, hc⟩
      · exact .inr ⟨d', by simp [hd'], hc⟩
  rcases hfold .empty methods h with hempty | hmem
  · cases hempty
  · exact hmem

theorem bound_of_mem {ds : List FunctionDecl} {d : FunctionDecl}
    (h : FunctionDecl.BoundAll R ctx ds) (hd : d ∈ ds) : d.Bound R (methodContext d) ctx := by
  induction ds with
  | nil => cases hd
  | cons d' ds ih =>
    rcases List.mem_cons.1 hd with rfl | hd
    · exact h.1
    · exact ih h.2 hd

/-- The methods of a class are in order in the scope that they close over. -/
theorem ready_methodTable (ctx : Context) {clean : Prop} {s : Store} {scope : Nat}
    {methods : List FunctionDecl}
    (hmethods : FunctionDecl.BoundAll R (ctx.enter (implicitScope "this")) methods)
    (hfits : Fits clean s ctx.scopes scope) (name : String) (c : Closure)
    (hc : (name, c) ∈ (methodTable scope methods).entries) : c.ReadyMethod R clean s := by
  obtain ⟨d, hd, rfl⟩ := mem_methodTable hc
  refine ⟨methodContext d, ctx, ?_, bound_of_mem hmethods hd, hfits, fun hinit => ?_⟩
  · unfold methodContext
    split <;> simp
  · have hname : d.name.lexeme = initializerName := by simpa using hinit
    simp [methodContext, hname]

theorem sound_declareClass {name : Token} {superclass : Option Reference} {cls : Option Nat}
    {methods : List FunctionDecl} (hcls : cls.isSome = superclass.isSome)
    (hworld : m.world.Sound R) (hfits : Fits m.world.Clean m.world.store ctx.scopes m.scope)
    (hstack : Stack R m.world.Clean m.world.store .done fn (ctx.mark name true) m.scope m.frames)
    (hname : name.IsPlain)
    (hmethods : FunctionDecl.BoundAll R ((ctx.mark name true).enterClass superclass) methods) :
    (m.declareClass name cls methods).Sound R := by
  let v : Value := .cls m.world.store.nextClass
  -- the class may as well be added behind the name, where its methods are in order
  cases cls with
  | none =>
    obtain rfl : superclass = none := by simpa using hcls.symm
    have hdefine := World.Extends.definePlain hworld m.scope hname v
    have hfits' := fits_define hfits hname v
    have hadd := World.Extends.addClass (hdefine.world hworld)
      ⟨name.lexeme, none, methodTable m.scope methods⟩
      (ready_methodTable ⟨.plain, (ctx.mark name true).scopes⟩ hmethods (hdefine.clean ▸ hfits'))
    exact sound_declared hworld hstack (hdefine.trans hadd) (hfits'.grow hadd.grows)
  | some i =>
    obtain ⟨ref, rfl⟩ : ∃ ref, superclass = some ref := by
      simpa [Option.isSome_iff_exists] using hcls.symm
    obtain ⟨hsuper, hheld, hlink, -⟩ := World.holds_implicit hworld m.scope (v := .cls i)
      (.inr ⟨rfl, i, rfl⟩)
    have hdefine := World.Extends.definePlain (hsuper.world hworld) m.scope hname v
    have hfits' := fits_define (hfits.grow hsuper.grows) hname v
    have hinner : Fits m.world.Clean _ (implicitScope "super" :: (ctx.mark name true).scopes)
        m.world.store.nextScope :=
      ⟨Nat.ne_of_gt hworld.store.global, hheld.mono hdefine.grows id, m.scope,
        hdefine.grows.link hlink, hfits'⟩
    have hall := hsuper.trans hdefine
    have hadd := World.Extends.addClass (hall.world hworld)
      ⟨name.lexeme, some i, methodTable m.world.store.nextScope methods⟩
      (ready_methodTable ⟨.derived, implicitScope "super" :: (ctx.mark name true).scopes⟩ hmethods
        (hall.clean ▸ hinner))
    exact sound_declared hworld hstack (hall.trans hadd) (hfits'.grow hadd.grows)

/-- The superclass of a class is there if one is named, or there is a fault. -/
theorem superclass_cases {superclass : Option Reference}
    (hplain : ∀ ref ∈ superclass, ref.name.IsPlain) :
    (∃ f, m.superclass superclass = .error f ∧ f.Possible) ∨
      ∃ cls, m.superclass superclass = .ok cls ∧ cls.isSome = superclass.isSome := by
  cases superclass with
  | none => exact .inr ⟨none, rfl, rfl⟩
  | some ref =>
    cases hread : m.world.read m.scope ref with
    | error f =>
      refine .inl ⟨f, by simp [Machine.superclass, hread, Bind.bind, Except.bind], ?_⟩
      rw [read_error hread]
      exact Fault.possible_undefined (hplain ref rfl)
    | ok v =>
      cases v with
      | cls i =>
        exact .inr ⟨some i, by simp [Machine.superclass, hread, Bind.bind, Except.bind, Pure.pure,
          Except.pure], rfl⟩
      | _ =>
        refine .inl ⟨.ofToken ref.name .superclassNotClass, ?_, id⟩
        simp only [Machine.superclass, hread, Bind.bind, Except.bind]

/-- Beginning to evaluate an expression. -/
theorem At.evalStep {e : Expr} (h : m.At R .value fn ctx) (he : e.Bound R ctx) :
    (m.evalStep e).Sound R := by
  cases e with
  | constant c => exact h.yield _
  | grouping e => exact h.eval he
  | unary operator e => exact (h.push .unary).eval he
  | binary l operator r => exact (h.push (.left he.2)).eval he.1
  | logical l operator r => exact (h.push (.logical he.2)).eval he.1
  | «variable» ref =>
    refine h.settle fun f hf => ?_
    rw [read_error hf]
    exact Fault.possible_undefined he.1.1
  | assign target e => exact (h.push (.assign he.1)).eval he.2
  | call f paren es => exact (h.push (.callee he.2)).eval he.1
  | get e name => exact (h.push .get).eval he
  | set e name v => exact (h.push (.setObject he.2)).eval he.1
  | this ref =>
    obtain ⟨object, hobject⟩ := h.read_this he
    refine h.settle fun f hf => ?_
    rw [hobject] at hf
    cases hf
  | super ref method => exact h.superMethod he

/-- Beginning to execute a statement. -/
theorem sound_execStep {s : Stmt} (hworld : m.world.Sound R)
    (hfits : Fits m.world.Clean m.world.store ctx.scopes m.scope)
    (hstack : Stack R m.world.Clean m.world.store .done fn (ctx.after s) m.scope m.frames)
    (hs : s.Bound R fn ctx) : (m.execStep s).Sound R := by
  cases s with
  | expression e =>
    have h : m.At R .done fn ctx := ⟨hworld, hfits, hstack⟩
    exact (h.push .discard).eval hs
  | print e =>
    have h : m.At R .done fn ctx := ⟨hworld, hfits, hstack⟩
    exact (h.push .printValue).eval hs
  | var name initial =>
    cases initial with
    | none => exact sound_define (.refl hworld) hworld hfits hstack hs.1 _
    | some e =>
      obtain ⟨hfresh, he⟩ := hs
      have hfits' : Fits m.world.Clean m.world.store (ctx.mark name false).scopes m.scope :=
        hfits.mark hfresh.1 (by simp)
      have hstack' : Stack R m.world.Clean m.world.store .value fn (ctx.mark name false) m.scope
          (.define name :: m.frames) := by
        refine .define hfresh.1 ?_
        rw [Context.mark_mark]
        exact hstack
      have h : (m.push (.define name)).At R .value fn (ctx.mark name false) :=
        ⟨hworld, hfits', hstack'⟩
      exact h.eval he
  | block body =>
    have h : m.At R .done fn ctx := ⟨hworld, hfits, hstack⟩
    exact h.runInside hfits (by simp) rfl hs
  | branch c s negative =>
    have h : m.At R .done fn ctx := ⟨hworld, hfits, hstack⟩
    cases negative with
    | none => exact (h.push (.branch hs.2.1 hs.2.2 (by simp))).eval hs.1
    | some t =>
      obtain ⟨hc, ⟨hs, hs'⟩, ht⟩ := hs
      exact (h.push (.branch hs hs' (by simpa using ht))).eval hc
  | loop c s =>
    have h : m.At R .done fn ctx := ⟨hworld, hfits, hstack⟩
    exact (h.push (.loopTest hs.1 hs.2.1 hs.2.2)).eval hs.1
  | function d =>
    obtain ⟨hfresh, hd⟩ := hs
    let v : Value := .function m.world.store.nextFunction
    have hdefine := World.Extends.definePlain hworld m.scope hfresh.1 v
    have hfits' := fits_define hfits hfresh.1 v
    have hready : Closure.Ready R (m.world.define m.scope d.name.lexeme v).Clean
        (m.world.define m.scope d.name.lexeme v).store ⟨d, m.scope, false⟩ :=
      ⟨.function, ctx.mark d.name true, by simp, hd, hdefine.clean ▸ hfits', by simp⟩
    have hadd := World.Extends.addFunction (hdefine.world hworld) hready
    exact sound_declared hworld hstack (hdefine.trans hadd) (hfits'.grow hadd.grows)
  | cls name superclass methods =>
    have hparts : name.IsPlain ∧ (∀ ref ∈ superclass, ref.name.IsPlain) ∧
        FunctionDecl.BoundAll R ((ctx.mark name true).enterClass superclass) methods := by
      cases superclass with
      | none => exact ⟨hs.1.1, by simp, hs.2⟩
      | some ref =>
        obtain ⟨hfresh, -, hresolves, -, hmethods⟩ := hs
        exact ⟨hfresh.1, by simpa using hresolves.1, hmethods⟩
    obtain ⟨hname, hplain, hmethods⟩ := hparts
    rw [Machine.execStep]
    rcases superclass_cases (m := m) hplain with ⟨f, hf, hpossible⟩ | ⟨i, hi, hsome⟩
    · have hshape : Fits False m.world.store (ctx.mark name true).scopes m.scope :=
        hfits.shape.mark hname fun h => h.elim
      have hraised : (m.raise f).Sound R := .fault rfl hworld hshape hstack hpossible
      simpa only [hf] using hraised
    · rw [hi]
      exact sound_declareClass hsome hworld hfits hstack hname hmethods
  | ret keyword value =>
    have h : m.At R .done fn ctx := ⟨hworld, hfits, hstack⟩
    cases value with
    | none => exact h.complete ⟨hs, fun _ => rfl⟩
    | some e => exact (h.push (.ret hs.1 hs.2.1)).eval hs.2.2

/-- A value reaches the frame that waits for it. -/
theorem At.takeValue {f : Frame} {fs : List Frame} {v : Value} (hframes : m.frames = f :: fs)
    (h : m.At R .value fn ctx) :
    ({ m with frames := fs }.takeValue host v f).Sound R := by
  obtain ⟨hworld, hfits, hstack⟩ := h
  rw [hframes] at hstack
  cases hstack with
  | define hname hfs =>
    exact sound_define (m := { m with frames := fs }) (.refl hworld) hworld hfits hfs hname v
  | frame hf hfs =>
    have hat {kind : Awaited} (hfs : Stack R m.world.Clean m.world.store kind fn ctx m.scope fs) :
        Machine.At R { m with frames := fs } kind fn ctx := ⟨hworld, hfits, hfs⟩
    cases hf with
    | unary => exact (hat hfs).settle fun _ => unaryResult_possible
    | left he => exact ((hat hfs).push .right).eval he
    | right => exact (hat hfs).binary
    | logical he =>
      simp only [Machine.takeValue]
      split
      · exact (hat hfs).yield v
      · exact (hat hfs).eval he
    | assign href => exact (hat hfs).assign href
    | callee hes => exact (hat hfs).arguments hes
    | argument hes => exact (hat hfs).arguments hes
    | get =>
      cases v with
      | object i => exact (hat hfs).property
      | _ => exact (hat hfs).raise id
    | setObject he =>
      cases v with
      | object i => exact ((hat hfs).push .setField).eval he
      | _ => exact (hat hfs).raise id
    | @setField i name =>
      have hextends : World.Extends R m.world (m.world.setField i name.lexeme v) :=
        .keep hworld rfl rfl (.ofScopes rfl) rfl rfl rfl
      exact ((hat hfs).extend hextends).yield v
    | construct => exact (hat hfs).yield _
    | «show» => exact (hat hfs).yieldText _
    | discard => exact (hat hfs).complete trivial
    | printValue => exact ((hat hfs).push .printText).render
    | @branch s t hs hs' ht =>
      simp only [Machine.takeValue]
      split
      · exact (hat hfs).exec hs hs'
      · cases t with
        | none => exact (hat hfs).complete trivial
        | some t => exact (hat hfs).exec (ht t rfl).1 (ht t rfl).2
    | loopTest he hs hs' =>
      simp only [Machine.takeValue]
      split
      · exact ((hat hfs).push (.loopBody he hs hs')).exec hs hs'
      · exact (hat hfs).complete trivial
    | ret houtside hinitializer =>
      exact (hat hfs).complete ⟨houtside, fun h => absurd h hinitializer⟩

/-- A text reaches the frame that waits for it. -/
theorem At.takeText {f : Frame} {fs : List Frame} {text : String} (hframes : m.frames = f :: fs)
    (h : m.At R .text fn ctx) : ({ m with frames := fs }.takeText host text f).Sound R := by
  obtain ⟨hworld, hfits, hstack⟩ := h
  rw [hframes] at hstack
  cases hstack with
  | frame hf hfs =>
    have hat {kind : Awaited} (hfs : Stack R m.world.Clean m.world.store kind fn ctx m.scope fs) :
        Machine.At R { m with frames := fs } kind fn ctx := ⟨hworld, hfits, hfs⟩
    cases hf with
    | append => exact (hat hfs).yield _
    | printText =>
      have hextends : World.Extends R m.world (m.world.print host text).1 :=
        .keep hworld rfl rfl (.refl _) rfl rfl rfl
      have hat' := (hat hfs).extend hextends
      simp only [Machine.takeText]
      split
      next w heq =>
        rw [heq] at hat'
        exact hat'.complete trivial
      next w message heq =>
        rw [heq] at hat'
        exact hat'.raise trivial

/-- What a call yields is never a fault. -/
theorem callResult_ok {f : Closure} {c : Completion}
    (hf : f.isInitializer = true →
      ∃ object, m.world.store.own? f.scope "this" = some (.object object)) :
    ∃ v, m.callResult f c = .ok v := by
  unfold Machine.callResult
  split
  next hinit =>
    obtain ⟨object, hobject⟩ := hf hinit
    rw [hobject]
    exact ⟨_, rfl⟩
  next => cases c <;> exact ⟨_, rfl⟩

/-- The end of a statement reaches the frame that waits for it. -/
theorem At.takeDone {f : Frame} {fs : List Frame} {c : Completion} (hframes : m.frames = f :: fs)
    (h : m.At R .done fn ctx) (hc : c.Allowed fn) :
    ({ m with frames := fs }.takeDone c f).Sound R := by
  obtain ⟨hworld, hfits, hstack⟩ := h
  rw [hframes] at hstack
  cases hstack with
  | frame hf hfs =>
    have hat : Machine.At R { m with frames := fs } .done fn ctx := by
      cases hf
      exact ⟨hworld, hfits, hfs⟩
    cases hf with
    | loopBody he hs hs' =>
      cases c with
      | normal => exact (hat.push (.loopTest he hs hs')).eval he
      | returned v => exact hat.complete hc
  | @sequence _ _ ctx' _ outer rest _ hrest houter hfs =>
    have hat : Machine.At R { m with frames := fs, scope := outer } .done fn ctx' :=
      ⟨hworld, houter, hfs⟩
    cases c with
    | returned v => exact hat.complete hc
    | normal =>
      cases rest with
      | nil => exact hat.complete hc
      | cons s rest => exact .exec rfl hworld hfits (.sequence hrest.2 houter hfs) hrest.1
  | body hf hfs =>
    have hat : Machine.At R { m with frames := fs } .value _ ctx := ⟨hworld, hfits, hfs⟩
    refine hat.settle fun f' hf' => ?_
    obtain ⟨v, hv⟩ := callResult_ok (m := { m with frames := fs }) (c := c)
      fun hinit => (hf hinit).2
    rw [hv] at hf'
    cases hf'

/-- Behind a fault a statement list goes on in a world in which something has gone wrong. -/
theorem sound_takeFault {kind : Awaited} {f : Frame} {fs : List Frame} {fault : Fault}
    (hframes : m.frames = f :: fs) (hworld : m.world.Sound R)
    (hfits : Fits False m.world.store ctx.scopes m.scope)
    (hstack : Stack R m.world.Clean m.world.store kind fn ctx m.scope m.frames)
    (hfault : fault.Possible) : ({ m with frames := fs }.takeFault fault f).Sound R := by
  rw [hframes] at hstack
  cases hstack with
  | frame hf hfs =>
    have hsound : ({ m with frames := fs }.raise fault).Sound R :=
      .fault rfl hworld hfits hfs hfault
    cases hf <;> exact hsound
  | @define _ _ _ name _ hname hfs =>
    have hfits' : Fits False m.world.store (ctx.mark name true).scopes m.scope :=
      hfits.mark hname fun h => h.elim
    exact .fault rfl hworld hfits' hfs hfault
  | body hf hfs => exact .fault rfl hworld hfits hfs hfault
  | @sequence _ _ _ _ outer rest _ hrest houter hfs =>
    have hruntime : fault.report.isRuntime = true := by cases fault <;> rfl
    have hdirty := World.not_clean_report (w := m.world) hruntime
    have hat :
        ({ m with frames := fs }.takeFault fault (.sequence rest outer)).At R .done fn ctx := by
      refine ⟨hworld.report (Fault.possible_report hfault), ?_, ?_⟩
      · exact hfits.mono (.refl _) fun hclean => absurd hclean hdirty
      · exact Stack.mono (.sequence hrest houter hfs) (.refl _) World.clean_of_report
    exact .done rfl hat trivial

/-- A step leads from a machine in order to a machine in order. -/
theorem Sound.step (h : m.Sound R) : (m.step host).Sound R := by
  obtain ⟨control, frames, scope, world⟩ := m
  cases h with
  | @eval e _ _ hcontrol hat he =>
    obtain rfl : control = .eval e := hcontrol
    exact hat.evalStep he
  | @exec s _ _ hcontrol hworld hfits hstack hs =>
    obtain rfl : control = .exec s := hcontrol
    exact sound_execStep hworld hfits hstack hs
  | @value v _ _ hcontrol hat =>
    obtain rfl : control = .value v := hcontrol
    cases frames with
    | nil => exact .value rfl hat
    | cons f fs => exact hat.takeValue rfl
  | @text text _ _ hcontrol hat =>
    obtain rfl : control = .text text := hcontrol
    cases frames with
    | nil => exact .text rfl hat
    | cons f fs => exact hat.takeText rfl
  | @done c _ _ hcontrol hat hc =>
    obtain rfl : control = .done c := hcontrol
    cases frames with
    | nil => exact .done rfl hat hc
    | cons f fs => exact hat.takeDone rfl hc
  | @fault f _ _ _ hcontrol hworld hfits hstack hf =>
    obtain rfl : control = .fault f := hcontrol
    cases frames with
    | nil => exact .fault rfl hworld hfits hstack hf
    | cons f fs => exact sound_takeFault rfl hworld hfits hstack hf

theorem Sound.advance (host : Host) (n : Nat) (h : m.Sound R) : (m.advance host n).Sound R :=
  advance_keeps host (fun _ hm => hm.step) h n

end Machine

end ClassScript
