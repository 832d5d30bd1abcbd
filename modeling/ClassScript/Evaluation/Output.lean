/-! # Output

What a program prints goes to a sink, which may refuse a write or a flush.  The output is the
history of all writes and flushes, and what a sink answers may depend on all of it; the text of the
output is that of the writes that were accepted.
-/
namespace ClassScript

/-- What a sink was asked to do, and whether it did it. -/
inductive Event where
  | write (text : String) (accepted : Bool)
  | flush (accepted : Bool)
deriving DecidableEq

/-- The text that the sink received. -/
def Event.received : Event → String
  | write text true => text
  | write _ false | flush _ => ""

structure Output where
  events : Array Event := #[]
deriving DecidableEq

namespace Output

def push (o : Output) (e : Event) : Output := ⟨o.events.push e⟩

/-- The text received since the first `n` events. -/
def textSince (o : Output) (n : Nat) : String :=
  (o.events.toList.drop n).foldl (fun s e => s ++ e.received) ""

def text (o : Output) : String := o.textSince 0

/-- The number of line ends received. -/
def newlines (o : Output) : Nat :=
  o.events.foldl (fun n e => n + e.received.toList.count '\n') 0

end Output

/-- The message with which a sink refuses a text, or a flush, after a history. -/
structure Sink where
  refusesWrite : Output → String → Option String
  refusesFlush : Output → Option String

namespace Sink

/-- Accepts everything. -/
def unlimited : Sink := ⟨fun _ _ => none, fun _ => none⟩

/-- Accepts writes until it has received a number of line ends. -/
def limitLines (sink : Sink) (n : Nat) : Sink :=
  { sink with refusesWrite := fun o _ => if n ≤ o.newlines then some "sink full" else none }

/-- Refuses every flush. -/
def withoutFlush (sink : Sink) : Sink := { sink with refusesFlush := fun _ => some "flush failed" }

end Sink

namespace Output

/-- Writes a text; an empty one is not written at all. -/
def write (sink : Sink) (o : Output) (text : String) : Output × Option String :=
  if text.isEmpty then (o, none)
  else
    match sink.refusesWrite o text with
    | none => (o.push (.write text true), none)
    | some message => (o.push (.write text false), some message)

/-- Writes a text and then a line end; the line end only if the text was accepted. -/
def writeLine (sink : Sink) (o : Output) (text : String) : Output × Option String :=
  match o.write sink text with
  | (o, none) => o.write sink "\n"
  | (o, some message) => (o, some message)

def flush (sink : Sink) (o : Output) : Output × Option String :=
  match sink.refusesFlush o with
  | none => (o.push (.flush true), none)
  | some message => (o.push (.flush false), some message)

end Output

end ClassScript
