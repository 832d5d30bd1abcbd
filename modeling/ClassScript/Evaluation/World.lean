import ClassScript.Evaluation.Output
import ClassScript.Static.Analysis
import ClassScript.Store.Lookup

/-! # The world of a session

Everything that evaluation reads and changes apart from its own control: the store, the distances of
references, the output, the log, and how often the clock has been read.
-/
namespace ClassScript

/-- What the surroundings provide: the time at each reading of the clock, or why it cannot be read,
and the sink. -/
structure Host where
  clock : Nat → Except String Number
  sink : Sink

structure World where
  store : Store
  distances : Distances := ∅
  output : Output := {}
  log : Log := {}
  clockReads : Nat := 0

/-- The scope of global names. -/
def globalScope : Nat := 0

namespace World

def report (w : World) (r : Report) : World := { w with log := w.log.add r }

def reportAll (w : World) (rs : List Report) : World := { w with log := w.log.addAll rs }

def addScope (w : World) (enclosing : Option Nat) : World :=
  { w with store := w.store.addScope enclosing }

def addFunction (w : World) (c : Closure) : World := { w with store := w.store.addFunction c }

def addClass (w : World) (c : Class) : World := { w with store := w.store.addClass c }

def addObject (w : World) (cls : Nat) : World := { w with store := w.store.addObject cls }

def define (w : World) (scope : Nat) (name : String) (value : Value) : World :=
  { w with store := w.store.define scope name value }

/-- Supplies a function of the host under a name. -/
def supply (w : World) (scope : Nat) (name : String) (f : Native) : World :=
  { w with store := (w.store.addNative f).define scope name (.native w.store.nextNative) }

/-- A world in which only the clock is defined. -/
def initial : World :=
  ({ store := ({} : Store).addScope none } : World).supply globalScope "clock" .clock

def defineAll (w : World) (scope : Nat) : List Token → List Value → World
  | name :: names, value :: values =>
    (w.define scope name.lexeme value).defineAll scope names values
  | _, _ => w

def setField (w : World) (id : Nat) (name : String) (value : Value) : World :=
  { w with store := w.store.setField id name value }

def readClock (w : World) : World := { w with clockReads := w.clockReads + 1 }

/-- The distance recorded for a reference. -/
def distance? (w : World) (ref : Reference) : Option Nat := w.distances[ref.id]?

/-- Reads a reference from a scope: at its distance, or globally if it has none. -/
def read (w : World) (scope : Nat) (ref : Reference) : Except Fault Value :=
  match w.distance? ref with
  | some d => w.store.valueAt scope d ref.name
  | none => w.store.valueAt globalScope 0 ref.name

/-- The scope in which a reference is to be rebound, if its name is bound there. -/
def target? (w : World) (scope : Nat) (ref : Reference) : Option Nat :=
  match w.distance? ref with
  | some d => w.store.holderAt? scope d ref.name.lexeme
  | none => w.store.holderAt? globalScope 0 ref.name.lexeme

/-- Prints a line. -/
def print (w : World) (host : Host) (text : String) : World × Option String :=
  let (output, refusal) := w.output.writeLine host.sink text
  ({ w with output }, refusal)

/-- Flushes the output; a refusal is reported. -/
def flush (w : World) (host : Host) : World :=
  match w.output.flush host.sink with
  | (output, none) => { w with output }
  | (output, some message) => { w with output }.report (.io message)

/-- A method of an instance: its closure with a scope inside that binds `this`. -/
def bindMethod (w : World) (method : Closure) (object : Nat) : World × Closure :=
  let scope := w.store.nextScope
  ((w.addScope (some method.scope)).define scope "this" (.object object), { method with scope })

/-- A method of an instance as a new function value. -/
def methodValue (w : World) (method : Closure) (object : Nat) : World × Value :=
  let (w, bound) := w.bindMethod method object
  let id := w.store.nextFunction
  (w.addFunction bound, .function id)

end World

end ClassScript
