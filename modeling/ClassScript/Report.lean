import ClassScript.Text.Utf8
import ClassScript.Token.Basic

/-! # Reports

Everything that can be reported to the user, its text, and the log of a session.
-/
namespace ClassScript

inductive Report where
  | lexical (line : Nat) (message : String)
  | grammar (token : Token) (message : String)
  | static (token : Token) (message : String)
  | runtime (line : Nat) (message : String)
  | io (message : String)
  | encoding (fault : Text.Utf8Fault)
deriving DecidableEq

namespace Report

/-- How a report points at a token. -/
def location (t : Token) : String :=
  if t.kind = .endOfInput then " at end" else " at '" ++ t.lexeme ++ "'"

def message : Report → String
  | lexical _ m | grammar _ m | static _ m | runtime _ m | io m => m
  | encoding fault => fault.message

/-- Reports on input and output are bare messages; all others name a line. -/
def text : Report → String
  | lexical line m => "At line " ++ toString line ++ ".\n\tError: " ++ m
  | grammar t m | static t m =>
    "At line " ++ toString t.line ++ ".\n\tError" ++ location t ++ ": " ++ m
  | runtime line m => "At line " ++ toString line ++ ".\n\tRuntime Error: " ++ m
  | io m => m
  | encoding fault => fault.message

/-- Reports that arise while a program runs, as opposed to static ones. -/
def isRuntime : Report → Bool
  | runtime .. | io _ => true
  | lexical .. | grammar .. | static .. | encoding _ => false

end Report

/-- All reports of a session in order, with the texts and the messages that were made of them when
they came, and which classes of reports arose since the last `reset`. -/
structure Log where
  reports : Array Report := #[]
  texts : Array String := #[]
  messages : Array String := #[]
  hadError : Bool := false
  hadRuntimeError : Bool := false
deriving DecidableEq

namespace Log

def add (log : Log) (r : Report) : Log where
  reports := log.reports.push r
  texts := log.texts.push r.text
  messages := log.messages.push r.message
  hadError := log.hadError || !r.isRuntime
  hadRuntimeError := log.hadRuntimeError || r.isRuntime

def addAll (log : Log) (rs : List Report) : Log := rs.foldl add log

/-- Clears the two flags and keeps everything else. -/
def reset (log : Log) : Log := { log with hadError := false, hadRuntimeError := false }

end Log

end ClassScript
