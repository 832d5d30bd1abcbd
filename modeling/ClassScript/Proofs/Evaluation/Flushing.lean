import ClassScript.Proofs.Evaluation.Lifting

/-! # Flushes of which a sink takes no notice

A flush is an event in the history of the output, and a sink may answer otherwise because of it.  If
a sink does not, a program runs after a flush as it runs without it, and only the flush itself tells
the two histories apart.
-/
namespace ClassScript

def Event.isFlush : Event → Bool
  | write .. => false
  | flush _ => true

namespace Output

/-- The history without the flushes in it. -/
def unflushed (o : Output) : Output := ⟨o.events.filter fun e => !e.isFlush⟩

theorem unflushed_push (o : Output) (e : Event) :
    (o.push e).unflushed = if e.isFlush then o.unflushed else o.unflushed.push e := by
  cases he : e.isFlush <;> simp [unflushed, push, he]

@[simp] theorem unflushed_push_write (o : Output) (text : String) (accepted : Bool) :
    (o.push (.write text accepted)).unflushed = o.unflushed.push (.write text accepted) :=
  unflushed_push o (.write text accepted)

/-- The text received since the last flush. -/
def held (o : Output) : String :=
  o.events.foldl (fun s e => if e.isFlush then "" else s ++ e.received) ""

end Output

/-- Accepts writes as long as no more than `n` characters come between two flushes. -/
def Sink.holding (n : Nat) : Sink where
  refusesWrite o text := if n < (o.held ++ text).length then some "sink full" else none
  refusesFlush _ := none

namespace World

/-- The world without the flushes in its output. -/
def unflushed (w : World) : World := { w with output := w.output.unflushed }

variable {host : Host} {w : World} {program : Program}

end World

end ClassScript
