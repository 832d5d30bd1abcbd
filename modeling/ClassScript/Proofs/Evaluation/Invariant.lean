import ClassScript.Evaluation.Run
import ClassScript.Proofs.Store.Chain

/-! # Machines in order

What holds of every machine that runs bound programs.  The current scope corresponds to the scopes
around whatever is being evaluated, each frame holds code that is bound where it will be evaluated,
and every closure in the store is bound in the scopes that it closes over.
-/
namespace ClassScript

open Store (Fits Grows)

/-- A closure that can be called: its declaration is bound in its scope, and if it is an
initializer, that scope has an instance. -/
def Closure.Ready (R : Recorded) (clean : Prop) (s : Store) (c : Closure) : Prop :=
  ∃ (fn : FunctionContext) (ctx : Context), fn ≠ .outside ∧ c.declaration.Bound R fn ctx ∧
    Fits clean s ctx.scopes c.scope ∧
    (c.isInitializer = true →
      fn = .initializer ∧ ∃ object, s.own? c.scope "this" = some (.object object))

/-- A method, which can be called when its scope has been extended by an instance. -/
def Closure.ReadyMethod (R : Recorded) (clean : Prop) (s : Store) (c : Closure) : Prop :=
  ∃ (fn : FunctionContext) (ctx : Context), fn ≠ .outside ∧
    c.declaration.Bound R fn (ctx.enter (implicitScope "this")) ∧ Fits clean s ctx.scopes c.scope ∧
    (c.isInitializer = true → fn = .initializer)

/-- All code in the store is bound. -/
structure Store.Sound (R : Recorded) (clean : Prop) (s : Store) : Prop where
  functions : ∀ id, (s.closure id).Ready R clean s
  methods : ∀ id name c, (name, c) ∈ (s.classOf id).methods.entries → c.ReadyMethod R clean s
  natives : ∀ id, s.native id = .clock
  global : 0 < s.nextScope

/-- Causes that never come about. -/
def RuntimeCause.Impossible : RuntimeCause → Prop
  | superUnresolved | superWithoutObject | initializerUnbound | native _ => True
  | undefinedVariable name => Store.IsImplicit name
  | _ => False

/-- A fault that may come about. -/
def Fault.Possible : Fault → Prop
  | .runtime _ cause => ¬cause.Impossible
  | .sink _ => True

/-- A report of a fault that may come about, or of something else. -/
def Report.Possible (r : Report) : Prop :=
  ∀ line message, r = .runtime line message →
    ∃ cause : RuntimeCause, ¬cause.Impossible ∧ message = cause.message

/-- Each report was rendered when it came. -/
structure Log.Rendered (log : Log) : Prop where
  texts : log.texts = log.reports.map Report.text
  messages : log.messages = log.reports.map Report.message

namespace Log.Rendered

theorem empty : Log.Rendered {} := ⟨by simp, by simp⟩

theorem add {log : Log} (h : log.Rendered) (r : Report) : (log.add r).Rendered where
  texts := by simp [Log.add, h.texts]
  messages := by simp [Log.add, h.messages]

end Log.Rendered

/-- Nothing has gone wrong at run time so far. -/
def World.Clean (w : World) : Prop := ∀ r ∈ w.log.reports, r.isRuntime = false

instance (w : World) : Decidable w.Clean :=
  inferInstanceAs (Decidable (∀ r ∈ w.log.reports, r.isRuntime = false))

structure World.Sound (R : Recorded) (w : World) : Prop where
  recorded : ∀ id d, R id d → w.distances[id]? = d
  store : w.store.Sound R w.Clean
  log : ∀ r ∈ w.log.reports, r.Possible
  rendered : w.log.Rendered

/-- What frames wait for. -/
inductive Awaited where
  | value
  | text
  | done

/-- Frames that leave the scopes as they are: what they wait for and what they then pass on. -/
inductive Frame.Waits (R : Recorded) (fn : FunctionContext) (ctx : Context) :
    Frame → Awaited → Awaited → Prop where
  | unary {operator : Token} : Waits R fn ctx (.unary operator) .value .value
  | left {operator : Token} {e : Expr} (h : e.Bound R ctx) :
      Waits R fn ctx (.left operator e) .value .value
  | right {operator : Token} {v : Value} : Waits R fn ctx (.right operator v) .value .value
  | append {text : String} : Waits R fn ctx (.append text) .text .value
  | logical {operator : Token} {e : Expr} (h : e.Bound R ctx) :
      Waits R fn ctx (.logical operator e) .value .value
  | assign {target : Reference} (h : target.Resolves R ctx.scopes) :
      Waits R fn ctx (.assign target) .value .value
  | callee {paren : Token} {es : List Expr} (h : Expr.BoundAll R ctx es) :
      Waits R fn ctx (.callee paren es) .value .value
  | argument {callee : Value} {paren : Token} {before : List Value} {es : List Expr}
      (h : Expr.BoundAll R ctx es) :
      Waits R fn ctx (.argument callee paren before es) .value .value
  | get {name : Token} : Waits R fn ctx (.get name) .value .value
  | setObject {name : Token} {e : Expr} (h : e.Bound R ctx) :
      Waits R fn ctx (.setObject name e) .value .value
  | setField {object : Nat} {name : Token} : Waits R fn ctx (.setField object name) .value .value
  | construct {object : Nat} : Waits R fn ctx (.construct object) .value .value
  | show : Waits R fn ctx .show .value .text
  | discard : Waits R fn ctx .discard .value .done
  | printValue : Waits R fn ctx .printValue .value .done
  | printText : Waits R fn ctx .printText .text .done
  | branch {s : Stmt} {t : Option Stmt} (hs : s.Bound R fn ctx) (hs' : s.declared? = none)
      (ht : ∀ s ∈ t, s.Bound R fn ctx ∧ s.declared? = none) :
      Waits R fn ctx (.branch s t) .value .done
  | loopTest {e : Expr} {s : Stmt} (he : e.Bound R ctx) (hs : s.Bound R fn ctx)
      (hs' : s.declared? = none) : Waits R fn ctx (.loopTest e s) .value .done
  | loopBody {e : Expr} {s : Stmt} (he : e.Bound R ctx) (hs : s.Bound R fn ctx)
      (hs' : s.declared? = none) : Waits R fn ctx (.loopBody e s) .done .done
  | ret (houtside : fn ≠ .outside) (hinitializer : fn ≠ .initializer) :
      Waits R fn ctx .ret .value .done

/-- A stack of frames that waits for something inside a function, in a context and a scope.  Below
all frames evaluation is at global scope. -/
inductive Stack (R : Recorded) (clean : Prop) (s : Store) :
    Awaited → FunctionContext → Context → Nat → List Frame → Prop where
  | nil {ctx : Context} {k : Nat} (hk : k = globalScope) : Stack R clean s .done .outside ctx k []
  | frame {kind kind' : Awaited} {fn : FunctionContext} {ctx : Context} {k : Nat} {f : Frame}
      {fs : List Frame} (hf : f.Waits R fn ctx kind kind')
      (hfs : Stack R clean s kind' fn ctx k fs) : Stack R clean s kind fn ctx k (f :: fs)
  | define {fn : FunctionContext} {ctx : Context} {k : Nat} {name : Token} {fs : List Frame}
      (hname : name.IsPlain) (hfs : Stack R clean s .done fn (ctx.mark name true) k fs) :
      Stack R clean s .value fn ctx k (.define name :: fs)
  | sequence {fn : FunctionContext} {ctx ctx' : Context} {k outer : Nat} {rest : List Stmt}
      {fs : List Frame} (hrest : Stmt.BoundAll R fn ctx rest)
      (houter : Fits clean s ctx'.scopes outer) (hfs : Stack R clean s .done fn ctx' outer fs) :
      Stack R clean s .done fn ctx k (.sequence rest outer :: fs)
  | body {fn fn' : FunctionContext} {ctx : Context} {k : Nat} {f : Closure} {fs : List Frame}
      (hf : f.isInitializer = true →
        fn = .initializer ∧ ∃ object, s.own? f.scope "this" = some (.object object))
      (hfs : Stack R clean s .value fn' ctx k fs) :
      Stack R clean s .done fn ctx k (.body f :: fs)

/-- Statements may end this way inside a function. -/
def Completion.Allowed (fn : FunctionContext) : Completion → Prop
  | .normal => True
  | .returned v => fn ≠ .outside ∧ (fn = .initializer → v = .nil)

/-- All of a machine but its control is in order, and its frames wait for something. -/
structure Machine.At (R : Recorded) (m : Machine) (kind : Awaited) (fn : FunctionContext)
    (ctx : Context) : Prop where
  world : m.world.Sound R
  fits : Fits m.world.Clean m.world.store ctx.scopes m.scope
  stack : Stack R m.world.Clean m.world.store kind fn ctx m.scope m.frames

/-- The machine is in order.  The frames behind a fault only have to have the right shape. -/
inductive Machine.Sound (R : Recorded) (m : Machine) : Prop where
  | eval {e : Expr} {fn : FunctionContext} {ctx : Context} (hcontrol : m.control = .eval e)
      (hat : m.At R .value fn ctx) (he : e.Bound R ctx)
  | exec {s : Stmt} {fn : FunctionContext} {ctx : Context} (hcontrol : m.control = .exec s)
      (hworld : m.world.Sound R) (hfits : Fits m.world.Clean m.world.store ctx.scopes m.scope)
      (hstack : Stack R m.world.Clean m.world.store .done fn (ctx.after s) m.scope m.frames)
      (hs : s.Bound R fn ctx)
  | value {v : Value} {fn : FunctionContext} {ctx : Context} (hcontrol : m.control = .value v)
      (hat : m.At R .value fn ctx)
  | text {text : String} {fn : FunctionContext} {ctx : Context} (hcontrol : m.control = .text text)
      (hat : m.At R .text fn ctx)
  | done {c : Completion} {fn : FunctionContext} {ctx : Context} (hcontrol : m.control = .done c)
      (hat : m.At R .done fn ctx) (hc : c.Allowed fn)
  | fault {f : Fault} {kind : Awaited} {fn : FunctionContext} {ctx : Context}
      (hcontrol : m.control = .fault f) (hworld : m.world.Sound R)
      (hfits : Fits False m.world.store ctx.scopes m.scope)
      (hstack : Stack R m.world.Clean m.world.store kind fn ctx m.scope m.frames)
      (hf : f.Possible)

section Mono

variable {R : Recorded} {clean clean' : Prop} {s s' : Store}

theorem Closure.Ready.mono {c : Closure} (h : c.Ready R clean s) (hgrows : Grows s s')
    (hclean : clean' → clean) : c.Ready R clean' s' := by
  obtain ⟨fn, ctx, hfn, hbound, hfits, hinitializer⟩ := h
  refine ⟨fn, ctx, hfn, hbound, hfits.mono hgrows hclean, fun hinit => ?_⟩
  obtain ⟨hfn', object, hobject⟩ := hinitializer hinit
  exact ⟨hfn', object, hgrows.keeps (.inl rfl) hobject⟩

theorem Closure.ReadyMethod.mono {c : Closure} (h : c.ReadyMethod R clean s) (hgrows : Grows s s')
    (hclean : clean' → clean) : c.ReadyMethod R clean' s' := by
  obtain ⟨fn, ctx, hfn, hbound, hfits, hinitializer⟩ := h
  exact ⟨fn, ctx, hfn, hbound, hfits.mono hgrows hclean, hinitializer⟩

theorem Stack.mono {kind : Awaited} {fn : FunctionContext} {ctx : Context} {k : Nat}
    {fs : List Frame} (h : Stack R clean s kind fn ctx k fs) (hgrows : Grows s s')
    (hclean : clean' → clean) : Stack R clean' s' kind fn ctx k fs := by
  induction h with
  | nil hk => exact .nil hk
  | frame hf _ ih => exact .frame hf ih
  | define hname _ ih => exact .define hname ih
  | sequence hrest houter _ ih => exact .sequence hrest (houter.mono hgrows hclean) ih
  | body hf _ ih =>
    refine .body (fun hinit => ?_) ih
    obtain ⟨hfn, object, hobject⟩ := hf hinit
    exact ⟨hfn, object, hgrows.keeps (.inl rfl) hobject⟩

end Mono

/-- A world that has gone on from another one without a report. -/
structure World.Extends (R : Recorded) (w w' : World) : Prop where
  distances : w'.distances = w.distances
  log : w'.log = w.log
  grows : Grows w.store w'.store
  sound : w'.store.Sound R w.Clean

section Extends

variable {R : Recorded} {w w' w'' : World}

theorem World.Extends.refl (h : w.Sound R) : World.Extends R w w :=
  ⟨rfl, rfl, .refl _, h.store⟩

theorem World.Extends.clean (h : World.Extends R w w') : w'.Clean = w.Clean := by
  rw [World.Clean, World.Clean, h.log]

theorem World.Extends.trans (h : World.Extends R w w') (h' : World.Extends R w' w'') :
    World.Extends R w w'' where
  distances := h'.distances.trans h.distances
  log := h'.log.trans h.log
  grows := h.grows.trans h'.grows
  sound := h.clean ▸ h'.sound

theorem World.Extends.world (h : World.Extends R w w') (hw : w.Sound R) : w'.Sound R where
  recorded := by
    rw [h.distances]
    exact hw.recorded
  store := by
    rw [h.clean]
    exact h.sound
  log := by
    rw [h.log]
    exact hw.log
  rendered := by
    rw [h.log]
    exact hw.rendered

end Extends

namespace Machine.At

variable {R : Recorded} {m : Machine} {kind kind' : Awaited} {fn : FunctionContext} {ctx : Context}

/-- The machine goes on in a later world. -/
theorem extend (h : m.At R kind fn ctx) {w : World} (hw : World.Extends R m.world w) :
    Machine.At R { m with world := w } kind fn ctx where
  world := hw.world h.world
  fits := by
    rw [hw.clean]
    exact h.fits.grow hw.grows
  stack := by
    rw [hw.clean]
    exact h.stack.mono hw.grows id

theorem push (h : m.At R kind' fn ctx) {f : Frame} (hf : f.Waits R fn ctx kind kind') :
    (m.push f).At R kind fn ctx :=
  ⟨h.world, h.fits, .frame hf h.stack⟩

theorem eval (h : m.At R .value fn ctx) {e : Expr} (he : e.Bound R ctx) : (m.eval e).Sound R :=
  .eval rfl ⟨h.world, h.fits, h.stack⟩ he

theorem yield (h : m.At R .value fn ctx) (v : Value) : (m.yield v).Sound R :=
  .value rfl ⟨h.world, h.fits, h.stack⟩

theorem yieldText (h : m.At R .text fn ctx) (text : String) : (m.yieldText text).Sound R :=
  .text rfl ⟨h.world, h.fits, h.stack⟩

theorem complete (h : m.At R .done fn ctx) {c : Completion} (hc : c.Allowed fn) :
    (m.complete c).Sound R :=
  .done rfl ⟨h.world, h.fits, h.stack⟩ hc

theorem raise (h : m.At R kind fn ctx) {f : Fault} (hf : f.Possible) : (m.raise f).Sound R :=
  .fault rfl h.world h.fits.shape h.stack hf

theorem settle (h : m.At R .value fn ctx) {result : Except Fault Value}
    (hresult : ∀ f, result = .error f → f.Possible) : (m.settle result).Sound R := by
  cases result with
  | ok v => exact h.yield v
  | error f => exact h.raise (hresult f rfl)

theorem exec (h : m.At R .done fn ctx) {s : Stmt} (hs : s.Bound R fn ctx)
    (hdeclared : s.declared? = none) : (m.exec s).Sound R := by
  refine .exec rfl h.world h.fits ?_ hs
  have hafter : ctx.after s = ctx := by simp [Context.after, Scopes.after, hdeclared]
  rw [hafter]
  exact h.stack

end Machine.At

end ClassScript
