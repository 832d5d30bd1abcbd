import ClassScript.CommandLine.Arguments
import ClassScript.CommandLine.Files
import ClassScript.Program.Outline
import ClassScript.Session
import ClassScript.Text.Blank
import ClassScript.Text.Quoted
import ClassScript.Token.Text

/-! # What a command writes

The transcript of a command is its exit code and what it writes to the two output streams, given the
files it can read and its whole standard input.
-/
namespace ClassScript.CommandLine

structure Transcript where
  code : Nat := 0
  out : String := ""
  err : String := ""
deriving DecidableEq

/-- Why a command cannot do its work. -/
inductive Failure where
  | file (path : String) (fault : FileFault)
  | encoding (path : String) (fault : Text.Utf8Fault)
  | input

/-- What was attempted and why it failed. -/
def Failure.parts : Failure → String × String
  | file path (.notOpened cause) => ("Failed to open file " ++ Text.quotedName path, cause.message)
  | file path (.notRead cause) => ("Failed to read file " ++ Text.quotedName path, cause.message)
  | encoding path fault =>
    ("File " ++ Text.quotedName path ++ " is not valid UTF-8", fault.message)
  | input => ("Failed to read from stdin", "stream did not contain valid UTF-8")

def Failure.text (f : Failure) : String :=
  "Error: " ++ f.parts.1 ++ "\n\nCaused by:\n    " ++ f.parts.2 ++ "\n"

def Failure.code : Nat := 1

/-- The exit code of a misused command line. -/
def misuseCode : Nat := 2

def versionText : String := "locks 0.1.0\n"

def sourceText (path : String) (bytes : Except FileFault (List UInt8)) : Except Failure String :=
  match bytes with
  | .error fault => .error (.file path fault)
  | .ok bytes => (Text.Utf8.decode bytes).mapError (.encoding path)

def asLines (texts : List String) : String := String.join (texts.map fun text => text ++ "\n")

/-- Every token and every lexical error on a line of its own, in its stream. -/
def tokenize (json : Bool) (source : String) : Transcript :=
  let items := Source.items source
  let reports := items.filterMap Source.Item.report?
  { code := if reports.isEmpty then 0 else Outcome.staticError.exitCode
    out := String.join ((items.filterMap Source.Item.token?).map fun t =>
      (if json then t.json else t.text) ++ "\n")
    err := asLines (reports.map Report.text) }

/-- The outline of a program, or its errors. -/
def outline (source : String) : Transcript :=
  match (Program.ofSource 0 source).1 with
  | .ok program => { out := program.outline ++ "\n" }
  | .error reports =>
    { code := Outcome.staticError.exitCode, err := asLines (reports.map Report.text) }

/-- What a session has written since an earlier state. -/
def written (before after : World) : String × String :=
  (after.output.textSince before.output.events.size,
    asLines (after.log.texts.toList.drop before.log.texts.size))

/-- Runs a source text in a new session. -/
def runSource (host : Host) (steps : Nat) (source : String) : Option Transcript :=
  (Session.initial.run host steps source).map fun (outcome, session) =>
    let (out, err) := written .initial session.world
    { code := outcome.exitCode, out, err }

def prompt : String := "$ "

/-- Answers one line; a blank line is passed over, and flags do not outlive their line. -/
def answerLine (host : Host) (steps : Nat) (session : Session) (line : String) : Option Session :=
  if Text.allBlank line then some session.reset
  else (session.run host steps line).map fun (_, session) => session.reset

/-- Cuts bytes behind each line end. -/
def splitLines (bytes : List UInt8) : List (List UInt8) :=
  let (lines, last) := bytes.foldl
    (fun (lines, line) b =>
      if b = 10 then ((b :: line).reverse :: lines, []) else (lines, b :: line))
    (([] : List (List UInt8)), ([] : List UInt8))
  (if last.isEmpty then lines else last.reverse :: lines).reverse

/-- An interactive session: a prompt before each line and before the end of the input. -/
def converse (host : Host) (steps : Nat) (session : Session) (sofar : Transcript) :
    List (List UInt8) → Option Transcript
  | [] => some { sofar with out := sofar.out ++ prompt ++ "\n" }
  | bytes :: rest =>
    match Text.Utf8.decode bytes with
    | .error _ =>
      some { code := Failure.code, out := sofar.out ++ prompt,
             err := sofar.err ++ Failure.input.text }
    | .ok line => do
      let next ← answerLine host steps session line
      let (out, err) := written session.world next.world
      converse host steps next { out := sofar.out ++ prompt ++ out, err := sofar.err ++ err } rest

/-- Hands on the text of a file, or fails. -/
def withSource (files : Files) (path : String) (use : String → Option Transcript) :
    Option Transcript :=
  match sourceText path (files path) with
  | .ok source => use source
  | .error failure => some { code := Failure.code, err := failure.text }

def perform (host : Host) (steps : Nat) (files : Files) (input : List UInt8) :
    Command → Option Transcript
  | .interactive => converse host steps .initial {} (splitLines input)
  | .run path => withSource files path (runSource host steps)
  | .tokenize path json => withSource files path fun source => some (tokenize json source)
  | .outline path => withSource files path fun source => some (outline source)

end ClassScript.CommandLine
