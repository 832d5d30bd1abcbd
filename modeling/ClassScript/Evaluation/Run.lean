import ClassScript.Evaluation.Machine

/-! # Whole evaluations

A program, an expression, a statement list or a call is evaluated from start to end in a world.  All
take a bound on the number of steps; `none` means that the bound was too small.
-/
namespace ClassScript.World

/-- A machine that has nothing to do yet, at global scope. -/
def idle (w : World) : Machine where
  control := .done .normal
  frames := []
  scope := globalScope
  world := w

/-- What a machine that has stopped with an empty stack has found. -/
def outcome (m : Machine) : Option (Except Fault Value × World) :=
  match m.control with
  | .value v => some (.ok v, m.world)
  | .fault f => some (.error f, m.world)
  | _ => none

def evaluate (host : Host) (steps : Nat) (w : World) (e : Expr) :
    Option (Except Fault Value × World) :=
  ((w.idle.eval e).run host steps).bind outcome

def call (host : Host) (steps : Nat) (w : World) (f : Closure) (arguments : List Value) :
    Option (Except Fault Value × World) :=
  ((w.idle.apply f arguments).run host steps).bind outcome

/-- The text of a value as it is printed. -/
def render (host : Host) (steps : Nat) (w : World) (v : Value) :
    Option (Except Fault String × World) :=
  ((w.idle.render v).run host steps).bind fun m =>
    match m.control with
    | .text s => some (.ok s, m.world)
    | .fault f => some (.error f, m.world)
    | _ => none

/-- A machine that is about to execute a program at global scope. -/
def start (w : World) (program : Program) : Machine := w.idle.runList program globalScope

/-- Executes a statement list in a scope that exists already. -/
def execute (host : Host) (steps : Nat) (w : World) (body : List Stmt) (scope : Nat) :
    Option (Completion × World) :=
  ((w.idle.runList body scope).run host steps).bind fun m =>
    match m.control with
    | .done c => some (c, m.world)
    | _ => none

/-- Executes a program at global scope and flushes the output.  A return ends the program. -/
def runProgram (host : Host) (steps : Nat) (w : World) (program : Program) : Option World :=
  (w.execute host steps program globalScope).map fun (_, w) => w.flush host

/-- Analyses a program and keeps the distances, also those found before an error. -/
def analyze (w : World) (program : Program) : World × List StaticError :=
  let analysis := program.analyze w.distances
  ({ w with distances := analysis.distances }, analysis.errors.toList)

end ClassScript.World
