import ClassScript.Proofs.Evaluation.Leading
import ClassScript.Proofs.Evaluation.Output

/-! # Printing to a sink that refuses

Two machines that start alike, one with a sink that may refuse writes and one with a sink that
accepts everything, take the same steps until a write is refused.  After that the first one may go
anywhere, but if its sink does not recover it prints nothing any more.
-/
namespace ClassScript

namespace Machine

variable {host host' : Host} {L : Limits} {R : Recorded} {m m' : Machine} {sink sink' : Sink}

/-- The output after the next step, and the message if a write is refused in it. -/
def written (sink : Sink) (m : Machine) : Output × Option String :=
  match m.prints? with
  | some text => m.world.output.writeLine sink text
  | none => (m.world.output, none)

theorem prints?_cases {text : String} (h : m.prints? = some text) :
    m.control = .text text ∧ ∃ fs, m.frames = .printText :: fs := by
  unfold prints? at h
  split at h
  next s fs hcontrol hframes =>
    obtain rfl : s = text := Option.some.inj h
    exact ⟨hcontrol, fs, hframes⟩
  next => cases h

theorem takeText_printText (m : Machine) (host : Host) (text : String) :
    m.takeText host text .printText = { m with
      control := ((m.world.output.writeLine host.sink text).2.map fun message =>
        Control.fault (.sink message)).getD (.done .normal)
      world := { m.world with output := (m.world.output.writeLine host.sink text).1 } } := by
  rw [Machine.takeText, World.print]
  generalize m.world.output.writeLine host.sink text = printed
  obtain ⟨o, refusal⟩ := printed
  cases refusal with
  | none => rfl
  | some message => rfl

theorem Grounded.output_step (h : m.Grounded L) (hregular : m.Regular) (host : Host) :
    (m.step host).world.output = (m.written host.sink).1 := by
  rw [written]
  cases hprints : m.prints? with
  | none => exact (h.step hregular host).output hprints
  | some text =>
    obtain ⟨hcontrol, fs, hframes⟩ := prints?_cases hprints
    simp only [Machine.step, hcontrol, hframes, takeText_printText]

theorem applyNative_congr (hclock : host'.clock = host.clock) (m : Machine) (f : Native)
    (paren : Token) (arguments : List Value) :
    m.applyNative host' f paren arguments = m.applyNative host f paren arguments := by
  cases f <;> simp only [applyNative, hclock]

theorem call_congr (hclock : host'.clock = host.clock) (m : Machine) (callee : Value)
    (paren : Token) (arguments : List Value) :
    m.call host' callee paren arguments = m.call host callee paren arguments := by
  simp only [Machine.call, applyNative_congr hclock]

theorem arguments_congr (hclock : host'.clock = host.clock) (m : Machine) (callee : Value)
    (paren : Token) (before : List Value) (after : List Expr) :
    m.arguments host' callee paren before after = m.arguments host callee paren before after := by
  cases after with
  | nil => exact call_congr hclock m callee paren before.reverse
  | cons e after => rfl

theorem takeValue_congr (hclock : host'.clock = host.clock) (m : Machine) (v : Value) (f : Frame) :
    m.takeValue host' v f = m.takeValue host v f := by
  cases f with
  | callee paren es => exact arguments_congr hclock m v paren [] es
  | argument callee paren before after =>
    exact arguments_congr hclock m callee paren (v :: before) after
  | _ => rfl

/-- What the host has to do with a step: the time, and whether it accepts what is printed. -/
theorem step_congr (hclock : host'.clock = host.clock)
    (hwritten : m.written host'.sink = m.written host.sink) : m.step host' = m.step host := by
  obtain ⟨control, frames, scope, world⟩ := m
  cases control with
  | value v =>
    cases frames with
    | nil => rfl
    | cons f fs => exact takeValue_congr hclock _ v f
  | text text =>
    cases frames with
    | nil => rfl
    | cons f fs =>
      cases f with
      | printText =>
        change Machine.takeText host' _ text .printText = Machine.takeText host _ text .printText
        have hsame : world.output.writeLine host'.sink text =
            world.output.writeLine host.sink text := hwritten
        rw [takeText_printText, takeText_printText, hsame]
      | _ => rfl
  | eval e | exec s => rfl
  | done c | fault f => cases frames <;> rfl

theorem text_written_grows (sink : Sink) (m : Machine) :
    m.world.output.text.toList <+: (m.written sink).1.text.toList := by
  rw [written]
  split
  · exact Output.text_writeLine_grows sink _ _
  · exact List.prefix_refl _

theorem by_written (h : m.world.output.By sink) : (m.written sink).1.By sink := by
  rw [written]
  split
  · exact h.writeLine _
  · exact h

/-- A machine that goes on by at most one step. -/
theorem Grounded.output_advance (h : m.Grounded L) (hregular : m.Regular) (host : Host) :
    (m.advance host 1).world.output = m.world.output ∨
      (m.advance host 1).world.output = (m.written host.sink).1 := by
  cases hfinal : m.isFinal with
  | true => exact .inl (by rw [advance_of_final hfinal])
  | false =>
    rw [advance_succ hfinal]
    exact .inr (h.output_step hregular host)

/-- The second machine prints everything.  The first one is the same, or a write has been refused
and it has printed no more than the second. -/
def Trails (m m' : Machine) : Prop :=
  (m' = m ∧ ¬m.world.output.Refused) ∨
    (m.world.output.Refused ∧ m.world.output.text.toList <+: m'.world.output.text.toList)

/-- What is refused when two equal machines take a step. -/
theorem Trails.together (hclock : host'.clock = host.clock)
    (hnever : ∀ o text, host'.sink.refusesWrite o text = none) (h : m.Grounded L)
    (hregular : m.Regular) (ho : ¬m.world.output.Refused) :
    Trails (m.step host) (m.step host') := by
  have hcases : (m.written host.sink = m.written host'.sink ∧ ¬(m.written host.sink).1.Refused) ∨
      ((m.written host.sink).1.Refused ∧
        (m.written host.sink).1.text.toList <+: (m.written host'.sink).1.text.toList) := by
    rw [written, written]
    cases m.prints? with
    | none => exact .inl ⟨rfl, ho⟩
    | some text => exact Output.writeLine_cases hnever ho text
  rcases hcases with ⟨hsame, haccepted⟩ | ⟨hrefused, htext⟩
  · refine .inl ⟨step_congr hclock hsame.symm, ?_⟩
    rwa [h.output_step hregular]
  · refine .inr ⟨?_, ?_⟩
    · rwa [h.output_step hregular]
    · rwa [h.output_step hregular, h.output_step hregular]

/-- Once a write was refused, the first machine prints nothing and the second may print more. -/
theorem Trails.behind (hsticky : host.sink.Sticky) (h : m.Grounded L) (hregular : m.Regular)
    (h' : m'.Grounded L) (hregular' : m'.Regular) (hby : m.world.output.By host.sink)
    (ho : m.world.output.Refused)
    (htext : m.world.output.text.toList <+: m'.world.output.text.toList) :
    Trails (m.advance host 1) (m'.advance host' 1) := by
  have hstays : (m.advance host 1).world.output.Refused ∧
      (m.advance host 1).world.output.text = m.world.output.text := by
    rcases h.output_advance hregular host with heq | heq <;> rw [heq]
    · exact ⟨ho, rfl⟩
    · rw [written]
      split
      · exact Output.text_writeLine_sticky hsticky hby ho _
      · exact ⟨ho, rfl⟩
  have hgrows : m'.world.output.text.toList <+: (m'.advance host' 1).world.output.text.toList := by
    rcases h'.output_advance hregular' host' with heq | heq
    · simp only [heq]
      exact List.prefix_refl _
    · rw [heq]
      exact text_written_grows host'.sink m'
  refine .inr ⟨hstays.1, ?_⟩
  rw [hstays.2]
  exact htext.trans hgrows

/-- A machine whose sink may refuse trails one whose sink does not, at every number of steps. -/
theorem trails_advance (hclock : host'.clock = host.clock) (hsticky : host.sink.Sticky)
    (hnever : ∀ o text, host'.sink.refusesWrite o text = none) (h : m.Grounded L)
    (hsound : m.Sound R) (hby : m.world.output.By host.sink) (ho : ¬m.world.output.Refused)
    (n : Nat) :
    (m.advance host n).world.output.By host.sink ∧
      Trails (m.advance host n) (m.advance host' n) := by
  induction n with
  | zero => exact ⟨hby, .inl ⟨rfl, ho⟩⟩
  | succ n ih =>
    obtain ⟨hby, htrails⟩ := ih
    rw [advance_add, advance_add]
    have hgrounded := (h.advance hsound host n).1
    have hregular := (hsound.advance host n).regular
    have hgrounded' := (h.advance hsound host' n).1
    have hregular' := (hsound.advance host' n).regular
    generalize m.advance host n = z at *
    generalize m.advance host' n = z' at *
    -- equal machines stop together; after a refusal each goes on or stops on its own
    refine ⟨?_, ?_⟩
    · rcases hgrounded.output_advance hregular host with heq | heq <;> rw [heq]
      · exact hby
      · exact by_written hby
    · rcases htrails with ⟨rfl, ho⟩ | ⟨ho, htext⟩
      · cases hfinal : z'.isFinal with
        | true =>
          rw [advance_of_final hfinal, advance_of_final hfinal]
          exact .inl ⟨rfl, ho⟩
        | false =>
          rw [advance_succ hfinal, advance_succ hfinal]
          exact .together hclock hnever hgrounded hregular ho
      · exact .behind hsticky hgrounded hregular hgrounded' hregular' hby ho htext

end Machine

end ClassScript
