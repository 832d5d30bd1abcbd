import ClassScript.Proofs.Evaluation.Output
import ClassScript.Proofs.Session.Lookups
import ClassScript.Proofs.Store.Relabeling

/-! # Evaluation in other surroundings

Evaluation does not depend on the lines of its code, on the identities of references, on distances
that are recorded for references it does not meet, on what was reported before, on the frames that
wait below its own, or on events of which the sink takes no notice.  A machine in other surroundings
takes the same steps there.
-/
namespace ClassScript

/-- Labels for the code, distances, a log that precedes the machine's own, frames below its own, and
what is left of the history of the output. -/
structure Surroundings extends Relabeling where
  distances : Distances
  before : Log := {}
  below : List Frame := []
  heard : Output → Output := id

/-- The sink takes no notice of what is left out. -/
def Surroundings.Hears (σ : Surroundings) (sink : Sink) : Prop :=
  ∀ o text, (σ.heard o).write sink text = (σ.heard (o.write sink text).1, (o.write sink text).2)

namespace Report

def relabel (ρ : Relabeling) : Report → Report
  | lexical line m => lexical (ρ.line line) m
  | grammar t m => grammar (t.relabel ρ) m
  | static t m => static (t.relabel ρ) m
  | runtime line m => runtime (ρ.line line) m
  | io m => io m
  | encoding fault => encoding fault

@[simp] theorem isRuntime_relabel (ρ : Relabeling) (r : Report) :
    (r.relabel ρ).isRuntime = r.isRuntime := by
  cases r <;> rfl

@[simp] theorem message_relabel (ρ : Relabeling) (r : Report) :
    (r.relabel ρ).message = r.message := by
  cases r <;> rfl

end Report

theorem Fault.report_relabel (ρ : Relabeling) (f : Fault) :
    (f.relabel ρ).report = f.report.relabel ρ := by
  cases f <;> rfl

namespace Log

/-- The reports are rendered again; no message changes. -/
def relabel (ρ : Relabeling) (log : Log) : Log :=
  { log with
    reports := log.reports.map (Report.relabel ρ)
    texts := log.reports.map fun r => (r.relabel ρ).text }

/-- One log after another. -/
def append (log log' : Log) : Log where
  reports := log.reports ++ log'.reports
  texts := log.texts ++ log'.texts
  messages := log.messages ++ log'.messages
  hadError := log.hadError || log'.hadError
  hadRuntimeError := log.hadRuntimeError || log'.hadRuntimeError

@[simp] theorem relabel_add (ρ : Relabeling) (log : Log) (r : Report) :
    (log.add r).relabel ρ = (log.relabel ρ).add (r.relabel ρ) := by
  simp [add, relabel]

@[simp] theorem append_add (log log' : Log) (r : Report) :
    log.append (log'.add r) = (log.append log').add r := by
  simp [append, add, Bool.or_assoc]

end Log

namespace World

variable (σ : Surroundings)

def inside (w : World) : World where
  store := w.store.relabel σ.toRelabeling
  distances := σ.distances
  output := σ.heard w.output
  log := σ.before.append (w.log.relabel σ.toRelabeling)
  clockReads := w.clockReads

variable {σ} (w : World)

@[simp] theorem inside_store : (w.inside σ).store = w.store.relabel σ.toRelabeling := rfl

@[simp] theorem inside_clockReads : (w.inside σ).clockReads = w.clockReads := rfl

@[simp] theorem inside_report (r : Report) :
    (w.report r).inside σ = (w.inside σ).report (r.relabel σ.toRelabeling) := by
  simp [report, inside]

@[simp] theorem inside_addScope (enclosing : Option Nat) :
    (w.addScope enclosing).inside σ = (w.inside σ).addScope enclosing := rfl

@[simp] theorem inside_addObject (cls : Nat) :
    (w.addObject cls).inside σ = (w.inside σ).addObject cls := rfl

@[simp] theorem inside_define (scope : Nat) (name : String) (value : Value) :
    (w.define scope name value).inside σ = (w.inside σ).define scope name value := rfl

@[simp] theorem inside_setField (id : Nat) (name : String) (value : Value) :
    (w.setField id name value).inside σ = (w.inside σ).setField id name value := rfl

@[simp] theorem inside_readClock : w.readClock.inside σ = (w.inside σ).readClock := rfl

@[simp] theorem inside_addFunction (c : Closure) :
    (w.addFunction c).inside σ = (w.inside σ).addFunction (c.relabel σ.toRelabeling) := by
  simp [addFunction, inside]

@[simp] theorem inside_addClass (c : Class) :
    (w.addClass c).inside σ = (w.inside σ).addClass (c.relabel σ.toRelabeling) := by
  simp [addClass, inside]

@[simp] theorem inside_defineAll (scope : Nat) (names : List Token) (values : List Value) :
    (w.defineAll scope names values).inside σ =
      (w.inside σ).defineAll scope (names.map (Token.relabel σ.toRelabeling)) values := by
  induction names generalizing w values with
  | nil => rfl
  | cons name names ih =>
    cases values with
    | nil => rfl
    | cons v values => exact ih _ values

@[simp] theorem inside_bindMethod (method : Closure) (object : Nat) :
    (w.inside σ).bindMethod (method.relabel σ.toRelabeling) object =
      ((w.bindMethod method object).1.inside σ,
        (w.bindMethod method object).2.relabel σ.toRelabeling) := rfl

@[simp] theorem inside_methodValue (method : Closure) (object : Nat) :
    (w.inside σ).methodValue (method.relabel σ.toRelabeling) object =
      ((w.methodValue method object).1.inside σ, (w.methodValue method object).2) := by
  simp [methodValue]

theorem inside_print {host : Host} (hears : σ.Hears host.sink) (text : String) :
    (w.inside σ).print host text = ((w.print host text).1.inside σ, (w.print host text).2) := by
  have hline : (σ.heard w.output).writeLine host.sink text =
      (σ.heard (w.output.writeLine host.sink text).1, (w.output.writeLine host.sink text).2) := by
    rw [Output.writeLine_eq, Output.writeLine_eq, hears]
    split
    · exact hears _ _
    · rfl
  simp only [print, inside, hline]

/-- The surroundings have the distance that the world has recorded for a reference. -/
def Shares (w : World) (σ : Surroundings) (ref : Reference) : Prop :=
  σ.distances[σ.number ref.id]? = w.distance? ref

variable {w} {ref : Reference}

theorem inside_distance? (h : w.Shares σ ref) :
    (w.inside σ).distance? (ref.relabel σ.toRelabeling) = w.distance? ref := h

theorem inside_read (h : w.Shares σ ref) (scope : Nat) :
    (w.inside σ).read scope (ref.relabel σ.toRelabeling) =
      Fault.relabelResult σ.toRelabeling (w.read scope ref) := by
  rw [read, read, inside_distance? h]
  cases w.distance? ref <;> simp

theorem inside_target? (h : w.Shares σ ref) (scope : Nat) :
    (w.inside σ).target? scope (ref.relabel σ.toRelabeling) = w.target? scope ref := by
  rw [target?, target?, inside_distance? h]
  cases w.distance? ref <;> simp

end World

section Relabel

variable (ρ : Relabeling)

def Control.relabel : Control → Control
  | .eval e => .eval (e.relabel ρ)
  | .exec s => .exec (s.relabel ρ)
  | .value v => .value v
  | .text s => .text s
  | .done c => .done c
  | .fault f => .fault (f.relabel ρ)

def Frame.relabel : Frame → Frame
  | .unary op => .unary (op.relabel ρ)
  | .left op e => .left (op.relabel ρ) (e.relabel ρ)
  | .right op v => .right (op.relabel ρ) v
  | .append s => .append s
  | .logical op e => .logical (op.relabel ρ) (e.relabel ρ)
  | .assign target => .assign (target.relabel ρ)
  | .callee paren es => .callee (paren.relabel ρ) (Expr.relabelAll ρ es)
  | .argument function paren before after =>
    .argument function (paren.relabel ρ) before (Expr.relabelAll ρ after)
  | .get name => .get (name.relabel ρ)
  | .setObject name e => .setObject (name.relabel ρ) (e.relabel ρ)
  | .setField object name => .setField object (name.relabel ρ)
  | .construct object => .construct object
  | .show => .show
  | .discard => .discard
  | .printValue => .printValue
  | .printText => .printText
  | .define name => .define (name.relabel ρ)
  | .branch s t => .branch (s.relabel ρ) (t.map (Stmt.relabel ρ))
  | .loopTest c s => .loopTest (c.relabel ρ) (s.relabel ρ)
  | .loopBody c s => .loopBody (c.relabel ρ) (s.relabel ρ)
  | .ret => .ret
  | .sequence rest outer => .sequence (Stmt.relabelAll ρ rest) outer
  | .body f => .body (f.relabel ρ)

end Relabel

theorem unaryResult_relabel (ρ : Relabeling) (op : Token) (v : Value) :
    unaryResult (op.relabel ρ) v = Fault.relabelResult ρ (unaryResult op v) := by
  unfold unaryResult
  rw [Token.relabel_kind]
  split <;> rfl

theorem binaryResult_relabel (ρ : Relabeling) (op : Token) (l r : Value) :
    binaryResult (op.relabel ρ) l r = Fault.relabelResult ρ (binaryResult op l r) := by
  unfold binaryResult
  rw [Token.relabel_kind]
  split
  · rfl
  · rfl
  · split <;> rfl
  · split <;> rfl

namespace Machine

/-- The machine in its surroundings. -/
def inside (σ : Surroundings) (m : Machine) : Machine where
  control := m.control.relabel σ.toRelabeling
  frames := m.frames.map (Frame.relabel σ.toRelabeling) ++ σ.below
  scope := m.scope
  world := m.world.inside σ

variable {σ : Surroundings} (m : Machine)

@[simp] theorem inside_world : (m.inside σ).world = m.world.inside σ := rfl

@[simp] theorem inside_scope : (m.inside σ).scope = m.scope := rfl

theorem inside_push (f : Frame) :
    (m.push f).inside σ = (m.inside σ).push (f.relabel σ.toRelabeling) := rfl

theorem inside_settle (result : Except Fault Value) :
    (m.settle result).inside σ =
      (m.inside σ).settle (Fault.relabelResult σ.toRelabeling result) := by
  cases result <;> rfl

theorem inside_runInside (enclosing : Nat) (names : List Token) (values : List Value)
    (body : List Stmt) :
    (m.runInside enclosing names values body).inside σ =
      (m.inside σ).runInside enclosing (names.map (Token.relabel σ.toRelabeling)) values
        (Stmt.relabelAll σ.toRelabeling body) := by
  simp [runInside, runList, push, complete, inside, Frame.relabel, Control.relabel]

theorem inside_apply (c : Closure) (arguments : List Value) :
    (m.apply c arguments).inside σ =
      (m.inside σ).apply (c.relabel σ.toRelabeling) arguments := by
  rw [apply, inside_runInside, inside_push, apply]
  simp [Frame.relabel]

theorem inside_applyMethod (method : Closure) (object : Nat) (arguments : List Value) :
    (m.applyMethod method object arguments).inside σ =
      (m.inside σ).applyMethod (method.relabel σ.toRelabeling) object arguments := by
  rw [applyMethod, applyMethod, inside_world, World.inside_bindMethod]
  exact inside_apply { m with world := (m.world.bindMethod method object).1 } _ _

theorem inside_construct (cls : Nat) (arguments : List Value) :
    (m.construct cls arguments).inside σ = (m.inside σ).construct cls arguments := by
  simp only [construct, inside_world, World.inside_store, Store.relabel_method?]
  cases m.world.store.method? cls initializerName with
  | none => rfl
  | some method =>
    exact inside_applyMethod (push { m with world := m.world.addObject cls } _) method _ _

theorem inside_applyNative (host : Host) (f : Native) (paren : Token) (arguments : List Value) :
    (m.applyNative host f paren arguments).inside σ =
      (m.inside σ).applyNative host f (paren.relabel σ.toRelabeling) arguments := by
  cases f with
  | clock =>
    change (settle { m with world := m.world.readClock } _).inside σ = _
    rw [inside_settle]
    simp only [applyNative, inside_world, World.inside_clockReads]
    cases host.clock m.world.clockReads <;> rfl
  | guest arity answer =>
    simp only [applyNative, inside_settle, inside_world, World.inside_store, Store.relabel_text]
    cases answer (arguments.map fun v => (v, m.world.store.text v)) <;> rfl

theorem inside_arity? (callee : Value) : (m.inside σ).arity? callee = m.arity? callee := by
  cases callee <;> simp [arity?]

theorem inside_call (host : Host) (callee : Value) (paren : Token) (arguments : List Value) :
    (m.call host callee paren arguments).inside σ =
      (m.inside σ).call host callee (paren.relabel σ.toRelabeling) arguments := by
  unfold call
  rw [inside_arity?]
  cases m.arity? callee with
  | none => rfl
  | some arity =>
    dsimp only
    by_cases hlength : arguments.length = arity
    · rw [if_pos hlength, if_pos hlength]
      cases callee with
      | function id => simp [inside_apply]
      | native id => exact inside_applyNative m host _ paren arguments
      | cls id => exact inside_construct m id arguments
      | _ => rfl
    · rw [if_neg hlength, if_neg hlength]
      rfl

theorem inside_arguments (host : Host) (callee : Value) (paren : Token) (before : List Value)
    (after : List Expr) :
    (m.arguments host callee paren before after).inside σ =
      (m.inside σ).arguments host callee (paren.relabel σ.toRelabeling) before
        (Expr.relabelAll σ.toRelabeling after) := by
  cases after with
  | nil => exact inside_call m host callee paren _
  | cons e after => rfl

theorem inside_render (v : Value) : (m.render v).inside σ = (m.inside σ).render v := by
  cases v with
  | object id =>
    simp only [render, inside_world, World.inside_store, Store.relabel_textMethod?,
      Store.relabel_text]
    cases m.world.store.textMethod? id with
    | none => rfl
    | some method => exact inside_applyMethod (m.push .show) method id []
  | _ => simp [render, yieldText, inside, Control.relabel]

theorem inside_binary (op : Token) (l r : Value) :
    (m.binary op l r).inside σ = (m.inside σ).binary (op.relabel σ.toRelabeling) l r := by
  unfold binary
  rw [Token.relabel_kind]
  split
  · exact inside_render _ r
  · rw [inside_settle, binaryResult_relabel]

theorem inside_property (object : Nat) (name : Token) :
    (m.property object name).inside σ =
      (m.inside σ).property object (name.relabel σ.toRelabeling) := by
  simp only [property, inside_world, World.inside_store, Store.relabel_object,
    Store.relabel_method?, Token.relabel_lexeme]
  cases (m.world.store.object object).fields.get? name.lexeme with
  | some v => rfl
  | none =>
    cases m.world.store.method? (m.world.store.object object).cls name.lexeme with
    | none => rfl
    | some method => simp [inside, Control.relabel]

theorem inside_superParts {ref : Reference} (h : m.world.Shares σ ref) :
    (m.inside σ).superParts (ref.relabel σ.toRelabeling) =
      Fault.relabelResult σ.toRelabeling (m.superParts ref) := by
  have hthis : Token.named "this" (σ.line ref.name.line) =
      (Token.named "this" ref.name.line).relabel σ.toRelabeling := rfl
  simp only [superParts, inside_world, World.inside_distance? h, World.inside_store, inside_scope,
    Reference.relabel_name, Token.relabel_line, hthis, Store.relabel_valueAt]
  cases m.world.distance? ref with
  | none => rfl
  | some d =>
    dsimp only
    cases m.world.store.valueAt m.scope d ref.name with
    | error f => rfl
    | ok v =>
      cases v with
      | cls i =>
        dsimp only [Fault.relabelResult, bind, Except.bind]
        cases m.world.store.valueAt m.scope (d - 1) (.named "this" ref.name.line) with
        | error f => rfl
        | ok v => cases v <;> rfl
      | _ => rfl

theorem inside_superMethod {ref : Reference} (h : m.world.Shares σ ref) (name : Token) :
    (m.superMethod ref name).inside σ =
      (m.inside σ).superMethod (ref.relabel σ.toRelabeling) (name.relabel σ.toRelabeling) := by
  simp only [superMethod, inside_superParts m h]
  cases m.superParts ref with
  | error f => rfl
  | ok parts =>
    simp only [Fault.relabelResult, inside_world, World.inside_store, Store.relabel_method?,
      Token.relabel_lexeme]
    cases m.world.store.method? parts.1 name.lexeme with
    | none => rfl
    | some method => simp [inside, Control.relabel]

theorem inside_assign {ref : Reference} (h : m.world.Shares σ ref) (v : Value) :
    (m.assign ref v).inside σ = (m.inside σ).assign (ref.relabel σ.toRelabeling) v := by
  simp only [assign, inside_world, inside_scope, World.inside_target? h]
  cases m.world.target? m.scope ref <;> rfl

theorem inside_superclass {superclass : Option Reference}
    (h : ∀ ref ∈ superclass, m.world.Shares σ ref) :
    (m.inside σ).superclass (superclass.map (Reference.relabel σ.toRelabeling)) =
      Fault.relabelResult σ.toRelabeling (m.superclass superclass) := by
  cases superclass with
  | none => rfl
  | some ref =>
    simp only [Machine.superclass, Option.map_some, inside_world, inside_scope,
      World.inside_read (h ref rfl)]
    cases m.world.read m.scope ref with
    | error f => rfl
    | ok v => cases v <;> rfl

theorem methodTable_relabel (ρ : Relabeling) (scope : Nat) (methods : List FunctionDecl) :
    (methodTable scope methods).map (Closure.relabel ρ) =
      methodTable scope (FunctionDecl.relabelAll ρ methods) := by
  have hfold (table : Bindings Closure) :
      (methods.foldl (fun table d => table.insert d.name.lexeme
        ⟨d, scope, decide (d.name.lexeme = initializerName)⟩) table).map (Closure.relabel ρ) =
      (FunctionDecl.relabelAll ρ methods).foldl (fun table d => table.insert d.name.lexeme
        ⟨d, scope, decide (d.name.lexeme = initializerName)⟩) (table.map (Closure.relabel ρ)) := by
    induction methods generalizing table with
    | nil => rfl
    | cons d methods ih =>
      rw [List.foldl_cons, ih, FunctionDecl.relabelAll, List.foldl_cons, Bindings.map_insert]
      simp [Closure.relabel]
  exact hfold .empty

theorem inside_declareClass (name : Token) (superclass : Option Nat)
    (methods : List FunctionDecl) :
    (m.declareClass name superclass methods).inside σ =
      (m.inside σ).declareClass (name.relabel σ.toRelabeling) superclass
        (FunctionDecl.relabelAll σ.toRelabeling methods) := by
  cases superclass <;>
    simp [declareClass, inside, Control.relabel, Class.relabel, methodTable_relabel]

/-- The references that the machine is about to look up have the same distances in the
surroundings. -/
def Shares (m : Machine) (σ : Surroundings) : Prop :=
  ∀ ref, m.read? = some ref ∨ m.rebound? = some ref → m.world.Shares σ ref

variable {m}

theorem inside_evalStep {e : Expr} (hcontrol : m.control = .eval e) (h : m.Shares σ) :
    (m.evalStep e).inside σ = (m.inside σ).evalStep (e.relabel σ.toRelabeling) := by
  cases e with
  | «variable» ref | this ref =>
    have href := h ref (.inl (by simp [read?, hcontrol]))
    simp only [evalStep, Expr.relabel, inside_settle, inside_world, inside_scope,
      World.inside_read href]
  | super ref method => exact inside_superMethod m (h ref (.inl (by simp [read?, hcontrol]))) method
  | _ => rfl

theorem inside_execStep {s : Stmt} (hcontrol : m.control = .exec s) (h : m.Shares σ) :
    (m.execStep s).inside σ = (m.inside σ).execStep (s.relabel σ.toRelabeling) := by
  cases s with
  | var name initial => cases initial <;> rfl
  | block body => exact inside_runInside m m.scope [] [] body
  | branch c s negative => cases negative <;> rfl
  | function d => simp [execStep, Stmt.relabel, inside, Control.relabel, Closure.relabel]
  | cls name superclass methods =>
    have href : ∀ ref ∈ superclass, m.world.Shares σ ref := by
      rintro ref rfl
      exact h ref (.inl (by simp [read?, hcontrol]))
    simp only [execStep, Stmt.relabel, inside_superclass m href]
    cases m.superclass superclass with
    | error f => rfl
    | ok id => exact inside_declareClass m name id methods
  | ret keyword value => cases value <;> rfl
  | _ => rfl

theorem inside_takeValue (host : Host) (v : Value) {f : Frame}
    (h : ∀ target, f = .assign target → m.world.Shares σ target) :
    (m.takeValue host v f).inside σ =
      (m.inside σ).takeValue host v (f.relabel σ.toRelabeling) := by
  cases f with
  | unary op =>
    simp only [takeValue, Frame.relabel, inside_settle, unaryResult_relabel]
  | right op l => exact inside_binary m op l v
  | logical op e =>
    have hdecided : isDecided (op.relabel σ.toRelabeling) v = isDecided op v := rfl
    simp only [takeValue, Frame.relabel, hdecided]
    split <;> rfl
  | assign target => exact inside_assign m (h target rfl) v
  | callee paren es => exact inside_arguments m host v paren [] es
  | argument callee paren before after => exact inside_arguments m host callee paren _ after
  | get name =>
    cases v with
    | object id => exact inside_property m id name
    | _ => rfl
  | setObject name e => cases v <;> rfl
  | «show» => simp [takeValue, Frame.relabel, yieldText, inside, Control.relabel]
  | printValue => exact inside_render (m.push .printText) v
  | branch s t =>
    simp only [takeValue, Frame.relabel]
    split
    · rfl
    · cases t <;> rfl
  | loopTest c s =>
    simp only [takeValue, Frame.relabel]
    split <;> rfl
  | _ => rfl

theorem inside_takeText {host : Host} (hears : σ.Hears host.sink) (text : String) (f : Frame) :
    (m.takeText host text f).inside σ =
      (m.inside σ).takeText host text (f.relabel σ.toRelabeling) := by
  cases f with
  | printText =>
    simp only [takeText, Frame.relabel, inside_world, World.inside_print _ hears]
    obtain ⟨w, refusal⟩ := m.world.print host text
    cases refusal <;> rfl
  | _ => rfl

theorem inside_callResult (f : Closure) (c : Completion) :
    (m.inside σ).callResult (f.relabel σ.toRelabeling) c =
      Fault.relabelResult σ.toRelabeling (m.callResult f c) := by
  unfold callResult
  rw [Closure.relabel_isInitializer]
  cases f.isInitializer with
  | true => cases hthis : m.world.store.own? f.scope "this" <;> simp [hthis, Fault.relabelResult]
  | false => cases c <;> rfl

theorem inside_takeDone (c : Completion) (f : Frame) :
    (m.takeDone c f).inside σ = (m.inside σ).takeDone c (f.relabel σ.toRelabeling) := by
  cases f with
  | sequence rest outer =>
    cases c with
    | normal => cases rest <;> rfl
    | returned v => cases rest <;> rfl
  | loopBody condition s => cases c <;> rfl
  | body f => simp only [takeDone, Frame.relabel, inside_settle, inside_callResult]
  | _ => rfl

theorem inside_takeFault (fault : Fault) (f : Frame) :
    (m.takeFault fault f).inside σ =
      (m.inside σ).takeFault (fault.relabel σ.toRelabeling) (f.relabel σ.toRelabeling) := by
  cases f with
  | sequence rest outer =>
    simp [takeFault, Frame.relabel, inside, Control.relabel, Fault.report_relabel]
  | _ => rfl

theorem inside_start (w : World) (program : Program) (hbelow : σ.below = []) :
    (w.start program).inside σ =
      (w.inside σ).start (Stmt.relabelAll σ.toRelabeling program) := by
  rw [inside, hbelow]
  rfl

/-- A machine that has something left to do takes the same step in its surroundings. -/
theorem inside_step {host : Host} (h : m.Shares σ) (hears : σ.Hears host.sink)
    (hgoing : m.isFinal = false) :
    (m.inside σ).step host = (m.step host).inside σ := by
  obtain ⟨control, frames, scope, world⟩ := m
  cases control with
  | eval e => exact (inside_evalStep rfl h).symm
  | exec s => exact (inside_execStep rfl h).symm
  | value v =>
    cases frames with
    | nil => cases hgoing
    | cons f fs =>
      refine (inside_takeValue (m := ⟨.value v, fs, scope, world⟩) host v ?_).symm
      rintro target rfl
      exact h target (.inr rfl)
  | text text =>
    cases frames with
    | nil => cases hgoing
    | cons f fs => exact (inside_takeText (m := ⟨.text text, fs, scope, world⟩) hears text f).symm
  | done c =>
    cases frames with
    | nil => cases hgoing
    | cons f fs => exact (inside_takeDone (m := ⟨.done c, fs, scope, world⟩) c f).symm
  | fault fault =>
    cases frames with
    | nil => cases hgoing
    | cons f fs => exact (inside_takeFault (m := ⟨.fault fault, fs, scope, world⟩) fault f).symm

end Machine

end ClassScript
