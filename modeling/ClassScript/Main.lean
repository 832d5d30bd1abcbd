import ClassScript.CommandLine.Transcript
import Std.Time.DateTime.Timestamp

/-! # The program

Reads files and lines, shows output and reports as they arise, and leaves everything else to the
library.  A running program is advanced by many steps at a time, and the clock is read in between.
-/
namespace ClassScript.CommandLine

/-- The time in seconds since the beginning of 1970.  A clock that is set to an earlier time cannot
be read. -/
def now : IO (Except String Number) := do
  let time ← Std.Time.Timestamp.now
  let nanoseconds := time.toNanosecondsSinceUnixEpoch.val
  if nanoseconds < 0 then return .error "second time provided was later than self"
  else return .ok (Number.ofRatio nanoseconds.toNat 1000000000)

def exitWith (t : Transcript) : IO UInt32 := do
  IO.print t.out
  IO.eprint t.err
  return UInt32.ofNat t.code

/-- How much of a world has been shown. -/
structure Shown where
  events : Nat := 0
  texts : Nat := 0

/-- Shows what is new in a world. -/
def reveal (shown : Shown) (w : World) : IO Shown := do
  let out ← IO.getStdout
  out.putStr (w.output.textSince shown.events)
  out.flush
  IO.eprint (asLines (w.log.texts.toList.drop shown.texts))
  return ⟨w.output.events.size, w.log.texts.size⟩

/-- Steps between two looks at the clock. -/
def stride : Nat := 100000

partial def drive (shown : Shown) (m : Machine) : IO (Shown × World) := do
  let time ← now
  let host : Host := ⟨fun _ => time, .unlimited⟩
  let m := m.advance host stride
  let shown ← reveal shown m.world
  if m.isFinal then
    let world := m.world.flush host
    return (← reveal shown world, world)
  else drive shown m

/-- Runs a source text and shows what it does. -/
def runShown (shown : Shown) (session : Session) (source : String) :
    IO (Shown × Outcome × Session) := do
  match session.prepare source with
  | (none, session) => return (← reveal shown session.world, .staticError, session)
  | (some program, session) =>
    let (shown, world) ← drive shown (session.world.start program)
    let session := { session with world }
    return (shown, session.outcome, session)

def refusalOf : IO.Error → Refusal
  | .noFileOrDirectory _ code text | .inappropriateType _ code text
  | .permissionDenied _ code text | .invalidArgument _ code text => ⟨text, code.toNat⟩
  | e => ⟨toString e, 0⟩

def readFile (path : String) : IO (Except FileFault (List UInt8)) := do
  match ← (IO.FS.Handle.mk path .read).toBaseIO with
  | .error e => return .error (.notOpened (refusalOf e))
  | .ok handle =>
    match ← handle.readBinToEnd.toBaseIO with
    | .error e => return .error (.notRead (refusalOf e))
    | .ok bytes => return .ok bytes.toList

/-- The bytes up to the next line end, which is one of them; none at the end of the input. -/
partial def readLine (input : IO.FS.Stream) (before : List UInt8) : IO (List UInt8) := do
  match (← input.read 1).toList with
  | [] => return before.reverse
  | b :: _ => if b = 10 then return (b :: before).reverse else readLine input (b :: before)

partial def converseShown (shown : Shown) (session : Session) : IO UInt32 := do
  IO.print prompt
  (← IO.getStdout).flush
  let bytes ← readLine (← IO.getStdin) []
  if bytes.isEmpty then exitWith { out := "\n" }
  else
    match Text.Utf8.decode bytes with
    | .error _ => exitWith { code := Failure.code, err := Failure.input.text }
    | .ok line =>
      if Text.allBlank line then converseShown shown session.reset
      else
        let (shown, _, session) ← runShown shown session line
        converseShown shown session.reset

def performShown : Command → IO UInt32
  | .interactive => converseShown {} .initial
  | .run path => do
    match sourceText path (← readFile path) with
    | .error failure => exitWith { code := Failure.code, err := failure.text }
    | .ok source =>
      let (_, outcome, _) ← runShown {} .initial source
      return UInt32.ofNat outcome.exitCode
  | .tokenize path json => do
    match sourceText path (← readFile path) with
    | .error failure => exitWith { code := Failure.code, err := failure.text }
    | .ok source => exitWith (tokenize json source)
  | .outline path => do
    match sourceText path (← readFile path) with
    | .error failure => exitWith { code := Failure.code, err := failure.text }
    | .ok source => exitWith (outline source)

def usageText : String :=
  "Usage: locks [--log] [SCRIPT]\n       locks run FILE\n       locks repl\n"
    ++ "       locks tokenize FILE [--json]\n       locks parse FILE\n"

end ClassScript.CommandLine

open ClassScript.CommandLine in
def main (arguments : List String) : IO UInt32 := do
  match Request.ofArguments arguments with
  | .misuse => exitWith { code := misuseCode, err := usageText }
  | .version => exitWith { out := versionText }
  | .help => exitWith { out := usageText }
  | .perform command log =>
    if log then IO.FS.writeFile "app.log" ""
    performShown command
