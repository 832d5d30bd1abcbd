import ClassScript.Evaluation.Run
import ClassScript.Program.Source

/-! # Sessions

A session runs one source text after another in the same world.  A text with lexical, grammar or
static errors is reported and not executed.
-/
namespace ClassScript

inductive Outcome where
  | ok
  | staticError
  | runtimeError
deriving DecidableEq

def Outcome.exitCode : Outcome → Nat
  | ok => 0
  | staticError => 65
  | runtimeError => 70

/-- The world, and the identity of the next reference to be read. -/
structure Session where
  world : World
  nextId : Nat

namespace Session

def initial : Session := ⟨.initial, 0⟩

/-- Clears the flags of the log. -/
def reset (s : Session) : Session :=
  { s with world := { s.world with log := s.world.log.reset } }

/-- Reads and analyses a source text.  Errors are reported, and then there is no program. -/
def prepare (s : Session) (source : String) : Option Program × Session :=
  let (reading, nextId) := Program.ofSource s.nextId source
  match reading with
  | .error reports => (none, ⟨s.world.reportAll reports, nextId⟩)
  | .ok program =>
    match s.world.analyze program with
    | (world, []) => (some program, ⟨world, nextId⟩)
    | (world, errors) => (none, ⟨world.reportAll (errors.map StaticError.report), nextId⟩)

/-- The outcome of a run that was executed: an error reported since the last reset still counts. -/
def outcome (s : Session) : Outcome :=
  if s.world.log.hadRuntimeError then .runtimeError else .ok

/-- Runs a source text in at most `steps` steps. -/
def run (host : Host) (steps : Nat) (s : Session) (source : String) : Option (Outcome × Session) :=
  match s.prepare source with
  | (none, s) => some (.staticError, s)
  | (some program, s) =>
    (s.world.runProgram host steps program).map fun world =>
      let s := { s with world }
      (s.outcome, s)

end Session

end ClassScript
