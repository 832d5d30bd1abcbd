import ClassScript.Evaluation.Operator
import ClassScript.Evaluation.World

/-! # The evaluation machine

Evaluation proceeds in small steps.  A machine has a control, which is what is being evaluated or
what has just been found, a stack of frames, which is what is left to do with it, the current scope
and the world.  A fault removes frames until it meets a statement list, which reports it and goes
on.
-/
namespace ClassScript

/-- How a statement ends. -/
inductive Completion where
  | normal
  | returned (value : Value)
deriving DecidableEq

inductive Control where
  | eval (e : Expr)
  | exec (s : Stmt)
  /-- An expression has this value. -/
  | value (v : Value)
  /-- The value to be shown has this text. -/
  | text (s : String)
  /-- A statement has ended. -/
  | done (c : Completion)
  | fault (f : Fault)

/-- What waits for a value, a text or the end of a statement. -/
inductive Frame where
  /-- An operand of a unary operator. -/
  | unary (operator : Token)
  /-- The left operand; the right one is to be evaluated. -/
  | left (operator : Token) (right : Expr)
  /-- The right operand. -/
  | right (operator : Token) (left : Value)
  /-- The text to be put behind another. -/
  | append (left : String)
  | logical (operator : Token) (right : Expr)
  | assign (target : Reference)
  | callee (paren : Token) (arguments : List Expr)
  /-- An argument, with the arguments before it, the last one first, and those after it. -/
  | argument (callee : Value) (paren : Token) (before : List Value) (after : List Expr)
  | get (name : Token)
  /-- The instance whose field is to be set. -/
  | setObject (name : Token) (value : Expr)
  /-- The new value of a field. -/
  | setField (object : Nat) (name : Token)
  /-- The instance is the value of the call of its class, whatever its initializer yields. -/
  | construct (object : Nat)
  /-- A value that is shown as it is. -/
  | show
  | discard
  | printValue
  | printText
  | define (name : Token)
  | branch (positive : Stmt) (negative : Option Stmt)
  | loopTest (condition : Expr) (body : Stmt)
  | loopBody (condition : Expr) (body : Stmt)
  | ret
  /-- A statement of a list: the statements after it, and the scope to return to after the last. -/
  | sequence (rest : List Stmt) (outer : Nat)
  /-- The body of a function. -/
  | body (function : Closure)

structure Machine where
  control : Control
  frames : List Frame
  scope : Nat
  world : World

namespace Machine

def push (m : Machine) (f : Frame) : Machine := { m with frames := f :: m.frames }

def eval (m : Machine) (e : Expr) : Machine := { m with control := .eval e }

def exec (m : Machine) (s : Stmt) : Machine := { m with control := .exec s }

def yield (m : Machine) (v : Value) : Machine := { m with control := .value v }

def yieldText (m : Machine) (s : String) : Machine := { m with control := .text s }

def complete (m : Machine) (c : Completion) : Machine := { m with control := .done c }

def raise (m : Machine) (f : Fault) : Machine := { m with control := .fault f }

def settle (m : Machine) : Except Fault Value → Machine
  | .ok v => m.yield v
  | .error f => m.raise f

/-- Runs a statement list in a scope and then returns to the current one. -/
def runList (m : Machine) (body : List Stmt) (scope : Nat) : Machine :=
  { (m.push (.sequence body m.scope)).complete .normal with scope }

/-- Runs a statement list in a new scope inside an enclosing one that binds names to values. -/
def runInside (m : Machine) (enclosing : Nat) (names : List Token) (values : List Value)
    (body : List Stmt) : Machine :=
  let scope := m.world.store.nextScope
  let m := { m with
    world := (m.world.addScope (some enclosing)).defineAll scope names values }
  m.runList body scope

/-- Calls a function.  Arguments without a parameter are dropped, and parameters without an argument
stay undefined. -/
def apply (m : Machine) (c : Closure) (arguments : List Value) : Machine :=
  (m.push (.body c)).runInside c.scope c.declaration.parameters arguments c.declaration.body

/-- Calls a method on an instance. -/
def applyMethod (m : Machine) (method : Closure) (object : Nat) (arguments : List Value) :
    Machine :=
  let (world, bound) := m.world.bindMethod method object
  ({ m with world } : Machine).apply bound arguments

/-- Makes an instance and runs its initializer, if its class has one. -/
def construct (m : Machine) (cls : Nat) (arguments : List Value) : Machine :=
  let object := m.world.store.nextObject
  let initializer := m.world.store.method? cls initializerName
  let m := { m with world := m.world.addObject cls }
  match initializer with
  | none => m.yield (.object object)
  | some method => (m.push (.construct object)).applyMethod method object arguments

/-- Calls a function of the host.  Its failure is a fault of the call. -/
def applyNative (host : Host) (m : Machine) (f : Native) (paren : Token) (arguments : List Value) :
    Machine :=
  match f with
  | .clock =>
    ({ m with world := m.world.readClock } : Machine).settle
      (((host.clock m.world.clockReads).map .number).mapError fun reason =>
        .ofToken paren (.clock reason))
  | .guest _ answer =>
    m.settle ((answer (arguments.map fun v => (v, m.world.store.text v))).mapError fun message =>
      .ofToken paren (.native message))

/-- The number of arguments that a value takes when called. -/
def arity? (m : Machine) : Value → Option Nat
  | .function id => some (m.world.store.closure id).declaration.arity
  | .native id => some (m.world.store.native id).arity
  | .cls id => some (m.world.store.classArity id)
  | _ => none

/-- Calls a value, if it can be called and the number of arguments is right. -/
def call (host : Host) (m : Machine) (callee : Value) (paren : Token) (arguments : List Value) :
    Machine :=
  match m.arity? callee with
  | none => m.raise (.ofToken paren .notCallable)
  | some arity =>
    if arguments.length = arity then
      match callee with
      | .function id => m.apply (m.world.store.closure id) arguments
      | .native id => m.applyNative host (m.world.store.native id) paren arguments
      | .cls id => m.construct id arguments
      | _ => m.raise (.ofToken paren .notCallable)
    else m.raise (.ofToken paren (.arity arity arguments.length))

/-- Evaluates the arguments that are left, and then calls. -/
def arguments (host : Host) (m : Machine) (callee : Value) (paren : Token) (before : List Value) :
    List Expr → Machine
  | [] => m.call host callee paren before.reverse
  | e :: after => (m.push (.argument callee paren before after)).eval e

/-- Finds the text of a value: that of an instance by its own method, if there is one. -/
def render (m : Machine) (v : Value) : Machine :=
  match v with
  | .object id =>
    match m.world.store.textMethod? id with
    | some method => (m.push .show).applyMethod method id []
    | none => m.yieldText (m.world.store.text v)
  | _ => m.yieldText (m.world.store.text v)

/-- A string takes the text of any value behind it; all else is for `binaryResult`. -/
def binary (m : Machine) (operator : Token) (left right : Value) : Machine :=
  match operator.kind, left with
  | .plus, .string s => (m.push (.append s)).render right
  | _, _ => m.settle (binaryResult operator left right)

/-- A property of an instance: a field, or else a method bound to the instance. -/
def property (m : Machine) (object : Nat) (name : Token) : Machine :=
  match (m.world.store.object object).fields.get? name.lexeme with
  | some v => m.yield v
  | none =>
    match m.world.store.method? (m.world.store.object object).cls name.lexeme with
    | none => m.raise (.ofToken name (.undefinedProperty name.lexeme))
    | some method =>
      let (world, v) := m.world.methodValue method object
      { m with control := .value v, world }

/-- The class and the instance that `super` stands for.  The instance is bound one scope inside the
class. -/
def superParts (m : Machine) (ref : Reference) : Except Fault (Nat × Nat) :=
  match m.world.distance? ref with
  | none => .error (.ofToken ref.name .superUnresolved)
  | some d => do
    match ← m.world.store.valueAt m.scope d ref.name with
    | .cls cls =>
      match ← m.world.store.valueAt m.scope (d - 1) (Token.named "this" ref.name.line) with
      | .object object => return (cls, object)
      | _ => .error (.ofToken ref.name .superWithoutObject)
    | _ => .error (.ofToken ref.name .superclassNotClass)

/-- A method of the superclass, bound to the current instance. -/
def superMethod (m : Machine) (ref : Reference) (name : Token) : Machine :=
  match m.superParts ref with
  | .error f => m.raise f
  | .ok (cls, object) =>
    match m.world.store.method? cls name.lexeme with
    | none => m.raise (.ofToken name (.undefinedProperty name.lexeme))
    | some method =>
      let (world, v) := m.world.methodValue method object
      { m with control := .value v, world }

/-- Rebinds a name. -/
def assign (m : Machine) (ref : Reference) (v : Value) : Machine :=
  match m.world.target? m.scope ref with
  | none => m.raise (.undefined ref.name)
  | some scope =>
    { m with control := .value v, world := m.world.define scope ref.name.lexeme v }

/-- The superclass that a class declaration names. -/
def superclass (m : Machine) : Option Reference → Except Fault (Option Nat)
  | none => .ok none
  | some ref => do
    match ← m.world.read m.scope ref with
    | .cls id => return some id
    | _ => .error (.ofToken ref.name .superclassNotClass)

/-- Methods by name, closed over a scope; of two with one name the later counts. -/
def methodTable (scope : Nat) (methods : List FunctionDecl) : Bindings Closure :=
  methods.foldl
    (fun table d =>
      table.insert d.name.lexeme ⟨d, scope, decide (d.name.lexeme = initializerName)⟩)
    .empty

/-- Declares a class in the current scope.  The methods of a subclass are closed over a scope of
their own that binds `super`. -/
def declareClass (m : Machine) (name : Token) (superclass : Option Nat)
    (methods : List FunctionDecl) : Machine :=
  let world := m.world
  let cls := world.store.nextClass
  let inner := world.store.nextScope
  let world :=
    match superclass with
    | none =>
      world.addClass { name := name.lexeme, methods := methodTable m.scope methods }
    | some id =>
      ((world.addScope (some m.scope)).define inner "super" (.cls id)).addClass
        { name := name.lexeme, superclass := some id, methods := methodTable inner methods }
  { m with control := .done .normal, world := world.define m.scope name.lexeme (.cls cls) }

/-- Begins to evaluate an expression. -/
def evalStep (m : Machine) : Expr → Machine
  | .constant c => m.yield (.ofConstant c)
  | .grouping e => m.eval e
  | .unary operator e => (m.push (.unary operator)).eval e
  | .binary l operator r => (m.push (.left operator r)).eval l
  | .logical l operator r => (m.push (.logical operator r)).eval l
  | .variable ref => m.settle (m.world.read m.scope ref)
  | .assign target e => (m.push (.assign target)).eval e
  | .call f paren es => (m.push (.callee paren es)).eval f
  | .get e name => (m.push (.get name)).eval e
  | .set e name v => (m.push (.setObject name v)).eval e
  | .this ref => m.settle (m.world.read m.scope ref)
  | .super ref method => m.superMethod ref method

/-- Begins to execute a statement. -/
def execStep (m : Machine) : Stmt → Machine
  | .expression e => (m.push .discard).eval e
  | .print e => (m.push .printValue).eval e
  | .var name none =>
    { m with control := .done .normal, world := m.world.define m.scope name.lexeme .nil }
  | .var name (some e) => (m.push (.define name)).eval e
  | .block body => m.runInside m.scope [] [] body
  | .branch c s t => (m.push (.branch s t)).eval c
  | .loop c s => (m.push (.loopTest c s)).eval c
  | .function d =>
    let id := m.world.store.nextFunction
    { m with
      control := .done .normal
      world := (m.world.addFunction ⟨d, m.scope, false⟩).define m.scope d.name.lexeme
        (.function id) }
  | .cls name superclass methods =>
    match m.superclass superclass with
    | .error f => m.raise f
    | .ok id => m.declareClass name id methods
  | .ret _ none => m.complete (.returned .nil)
  | .ret _ (some e) => (m.push .ret).eval e

/-- Hands a value to the frame that waits for it.  A frame that waits for something else is dropped;
evaluation never meets one. -/
def takeValue (host : Host) (m : Machine) (v : Value) : Frame → Machine
  | .unary operator => m.settle (unaryResult operator v)
  | .left operator e => (m.push (.right operator v)).eval e
  | .right operator l => m.binary operator l v
  | .logical operator e => if isDecided operator v then m.yield v else m.eval e
  | .assign target => m.assign target v
  | .callee paren es => m.arguments host v paren [] es
  | .argument callee paren before after => m.arguments host callee paren (v :: before) after
  | .get name =>
    match v with
    | .object id => m.property id name
    | _ => m.raise (.ofToken name .propertyOfNonObject)
  | .setObject name e =>
    match v with
    | .object id => (m.push (.setField id name)).eval e
    | _ => m.raise (.ofToken name .fieldOfNonObject)
  | .setField id name =>
    { m with control := .value v, world := m.world.setField id name.lexeme v }
  | .construct id => m.yield (.object id)
  | .show => m.yieldText (m.world.store.text v)
  | .discard => m.complete .normal
  | .printValue => (m.push .printText).render v
  | .define name =>
    { m with control := .done .normal, world := m.world.define m.scope name.lexeme v }
  | .branch s t =>
    if v.truth then m.exec s
    else
      match t with
      | some s => m.exec s
      | none => m.complete .normal
  | .loopTest c s => if v.truth then (m.push (.loopBody c s)).exec s else m.complete .normal
  | .ret => m.complete (.returned v)
  | .append _ | .printText | .loopBody .. | .sequence .. | .body _ => m

/-- Hands a text to the frame that waits for it. -/
def takeText (host : Host) (m : Machine) (s : String) : Frame → Machine
  | .append left => m.yield (.string (left ++ s))
  | .printText =>
    match m.world.print host s with
    | (world, none) => { m with control := .done .normal, world }
    | (world, some message) => { m with control := .fault (.sink message), world }
  | _ => m

/-- What a call yields when the body of its function ends: an initializer its instance, whatever the
body returns. -/
def callResult (m : Machine) (f : Closure) (c : Completion) : Except Fault Value :=
  if f.isInitializer then
    match m.world.store.own? f.scope "this" with
    | some v => .ok v
    | none => .error (.ofToken f.declaration.name .initializerUnbound)
  else
    match c with
    | .normal => .ok .nil
    | .returned v => .ok v

/-- Tells the frame that waits for it that a statement has ended. -/
def takeDone (m : Machine) (c : Completion) : Frame → Machine
  | .sequence rest outer =>
    match c, rest with
    | .normal, s :: rest => (m.push (.sequence rest outer)).exec s
    | c, _ => { m with control := .done c, scope := outer }
  | .loopBody condition s =>
    match c with
    | .normal => (m.push (.loopTest condition s)).eval condition
    | .returned v => m.complete (.returned v)
  | .body f => m.settle (m.callResult f c)
  | _ => m

/-- A statement list reports a fault and goes on with the next statement; every other frame is
dropped. -/
def takeFault (m : Machine) (f : Fault) : Frame → Machine
  | .sequence rest outer =>
    { m with
      control := .done .normal
      frames := .sequence rest outer :: m.frames
      world := m.world.report f.report }
  | _ => m.raise f

/-- Nothing is left to do. -/
def isFinal (m : Machine) : Bool :=
  match m.control with
  | .eval _ | .exec _ => false
  | .value _ | .text _ | .done _ | .fault _ => m.frames.isEmpty

/-- One step. -/
def step (host : Host) (m : Machine) : Machine :=
  match m.control, m.frames with
  | .eval e, _ => m.evalStep e
  | .exec s, _ => m.execStep s
  | .value v, f :: fs => { m with frames := fs }.takeValue host v f
  | .text s, f :: fs => { m with frames := fs }.takeText host s f
  | .done c, f :: fs => { m with frames := fs }.takeDone c f
  | .fault e, f :: fs => { m with frames := fs }.takeFault e f
  | _, [] => m

/-- At most `n` steps. -/
def advance (host : Host) : Nat → Machine → Machine
  | 0, m => m
  | n + 1, m => if m.isFinal then m else advance host n (m.step host)

/-- The machine when nothing is left to do, if that takes fewer than `n` steps. -/
def run (host : Host) : Nat → Machine → Option Machine
  | 0, _ => none
  | n + 1, m => if m.isFinal then some m else run host n (m.step host)

end Machine

end ClassScript
