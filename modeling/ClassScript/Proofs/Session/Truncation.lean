import ClassScript.Proofs.Evaluation.Printing
import ClassScript.Proofs.Session.Reports

/-! # Output that is cut off

What a program prints to a sink that begins to refuse is the beginning of what it prints to a sink
that does not.
-/
namespace ClassScript

/-- A flush adds nothing to the text that was received. -/
theorem World.text_flush (w : World) (host : Host) :
    (w.flush host).output.text = w.output.text := by
  have houtput : (w.flush host).output = (w.output.flush host.sink).1 := by
    unfold World.flush
    generalize w.output.flush host.sink = flushed
    obtain ⟨output, _ | message⟩ := flushed <;> rfl
  rw [houtput, Output.text_flush]

namespace Session

variable {host host' : Host} {source : String}

/-- Every machine of a first run trails the machine that has taken as many steps with a sink that
accepts everything. -/
theorem trails_start (hclock : host'.clock = host.clock) (hsticky : host.sink.Sticky)
    (hnever : ∀ o text, host'.sink.refusesWrite o text = none) {program : Program} {s₁ : Session}
    (hprepare : Session.initial.prepare source = (some program, s₁)) (n : Nat) :
    Machine.Trails ((s₁.world.start program).advance host n)
      ((s₁.world.start program).advance host' n) := by
  have hstart : Session.initial.Visits host source (s₁.world.start program) :=
    ⟨program, s₁, 0, hprepare, rfl⟩
  obtain ⟨R, hsound⟩ := Reachable.initial.sound.visits hstart
  have houtput : (s₁.world.start program).world.output = {} := by
    obtain ⟨-, hworld, -⟩ := prepare_some hprepare
    rw [World.start, hworld]
    rfl
  apply (Machine.trails_advance hclock hsticky hnever (Reachable.initial.visits hstart).1 hsound
    ?_ ?_ n).2
  · rw [houtput]
    exact .empty
  · rw [houtput]
    exact Output.not_refused_empty

/-- A sink that refuses only cuts output off.  A source text is run in two fresh sessions with the
same clock, once with a sink that accepts every write, and once with one that, after it has refused
a write, refuses every write of some text.  Then the text received by the second sink is the
beginning of that received by the first, and what was reported before the first refusal is reported
in the other session too, in the same order. -/
theorem refusal_truncates (hclock : host'.clock = host.clock) (hsticky : host.sink.Sticky)
    (hnever : ∀ o text, host'.sink.refusesWrite o text = none) {steps steps' : Nat}
    {outcome outcome' : Outcome} {s s' : Session}
    (hrun : Session.initial.run host steps source = some (outcome, s))
    (hrun' : Session.initial.run host' steps' source = some (outcome', s')) :
    s.world.output.text.toList <+: s'.world.output.text.toList ∧
    ∀ m, Session.initial.Visits host source m → ¬m.world.output.Refused →
      m.world.log.reports.toList <+: s'.world.log.reports.toList := by
  constructor
  · rcases run_cases hrun with ⟨hprepare, -⟩ | ⟨program, s₁, -, hprepare, -⟩
    · rcases run_cases hrun' with ⟨hprepare', -⟩ | ⟨_, _, -, hprepare', -⟩
      · obtain ⟨-, rfl⟩ := Prod.mk.inj (hprepare.symm.trans hprepare')
        exact List.prefix_refl _
      · cases hprepare.symm.trans hprepare'
    · -- both machines are compared when both have stopped
      have hlast : s.world.output.text =
          ((s₁.world.start program).advance host (steps' + steps)).world.output.text := by
        rw [world_of_visits ⟨program, s₁, steps', hprepare, rfl⟩ hrun, World.text_flush,
          Machine.advance_add]
      have hlast' : s'.world.output.text =
          ((s₁.world.start program).advance host' (steps' + steps)).world.output.text := by
        rw [world_of_visits ⟨program, s₁, steps, hprepare, rfl⟩ hrun', World.text_flush,
          ← Machine.advance_add, Nat.add_comm]
      rw [hlast, hlast']
      rcases trails_start hclock hsticky hnever hprepare (steps' + steps) with ⟨heq, -⟩ | ⟨-, htext⟩
      · simp only [heq]
        exact List.prefix_refl _
      · exact htext
  · rintro m ⟨program, s₁, n, hprepare, rfl⟩ haccepted
    rcases trails_start hclock hsticky hnever hprepare n with ⟨heq, -⟩ | ⟨hrefused, -⟩
    · have hm : Session.initial.Visits host' source ((s₁.world.start program).advance host' n) :=
        ⟨program, s₁, n, hprepare, rfl⟩
      obtain ⟨R, hsound⟩ := Reachable.initial.sound.visits hm
      rw [world_of_visits hm hrun', ← heq]
      exact ((hsound.log_advance host' steps').trans (World.log_flush _ host')).reports
    · exact absurd hrefused haccepted

/-- The sink accepts one line, and the report of an earlier fault is made with both sinks. -/
theorem refusal_truncates_lines :
    let host : Host := ⟨fun _ => .ok ⟨0⟩, Sink.unlimited.limitLines 1⟩
    let host' : Host := ⟨fun _ => .ok ⟨0⟩, .unlimited⟩
    let source := "nil();print \"a\";print \"b\";"
    ∃ s s', Session.initial.run host 40 source = some (.runtimeError, s) ∧
      Session.initial.run host' 40 source = some (.runtimeError, s') ∧
      s.world.output.text = "a\n" ∧ s.world.output.Refused ∧ s.world.log.reports.size = 2 ∧
      "a\n".toList <+: s'.world.output.text.toList := by
  intro host host' source
  let s := Session.initial.after host 40 source
  let s' := Session.initial.after host' 40 source
  have hrun : Session.initial.run host 40 source = some (.runtimeError, s) :=
    run_of_outcome (by decide +kernel)
  have hrun' : Session.initial.run host' 40 source = some (.runtimeError, s') :=
    run_of_outcome (by decide +kernel)
  have htext : s.world.output.text = "a\n" := by decide +kernel
  have hclock : host'.clock = host.clock := rfl
  have hcut := (refusal_truncates hclock (Sink.sticky_limitLines .unlimited 1) (fun _ _ => rfl) hrun
    hrun').1
  rw [htext] at hcut
  exact ⟨s, s', hrun, hrun', htext, by decide +kernel, by decide +kernel, hcut⟩

end Session

end ClassScript
