import ClassScript.Proofs.Braces.Steps
import ClassScript.Proofs.Session.Reachable
import Mathlib.Data.List.Basic

/-! # Redundant braces change nothing

A program in which statements that are no declarations have been put into braces passes the
analysis if the program without these braces does, and as long as nothing goes wrong at run time it
prints the same.
-/
namespace ClassScript

/-- A world in which nothing has happened yet, with the distances of either program. -/
theorem World.nested_initial (D D' : Distances) :
    World.Nested D D' id { World.initial with distances := D }
      { World.initial with distances := D' } := by
  have hglobal : globalScope < World.initial.store.nextScope := by decide
  have hscopes : Twins.Hold id World.initial.store World.initial.store :=
    ⟨fun _ hk => hk, fun _ _ _ _ h => h, fun _ _ _ => rfl, ⟨rfl, hglobal⟩, rfl, rfl⟩
  refine ⟨⟨hscopes, rfl, fun id => ?_, rfl, fun id => ?_, rfl, rfl⟩, rfl, rfl, rfl, rfl, rfl⟩
  · rw [World.closure_initial]
    exact ⟨rfl, [], Nesting.solid_nil, .global, .mk .nil⟩
  · rw [World.classOf_initial]
    exact ⟨rfl, rfl, fun _ => .none⟩

theorem World.flush_of_accepted {w : World} {host : Host}
    (h : (w.output.flush host.sink).2 = none) :
    w.flush host = { w with output := (w.output.flush host.sink).1 } := by
  unfold World.flush
  generalize w.output.flush host.sink = flushed at h
  obtain ⟨output, refusal⟩ := flushed
  obtain rfl : refusal = none := h
  rfl

theorem World.flush_of_clean {w : World} {host : Host} (h : (w.flush host).Clean) :
    (w.output.flush host.sink).2 = none := by
  unfold World.flush at h
  split at h
  next heq => rw [heq]
  next => exact absurd h (World.not_clean_report rfl)

/-- A program that ends without a runtime report ends without any report, and with the same output,
if it has braces in it. -/
theorem World.Nested.runProgram {D D' : Distances} {ι : Twins} {R R' : Recorded} {w w' : World}
    (h : World.Nested D D' ι w w') {program program' : Program}
    (hprogram : Stmt.NestedAll D D' [] program program') (hsound : (w.start program).Sound R)
    (hsound' : (w'.start program').Sound R') {host : Host} {steps : Nat} {z : World}
    (hrun : w.runProgram host steps program = some z) (hclean : z.Clean) :
    ∃ steps' z', w'.runProgram host steps' program' = some z' ∧ z'.output = z.output ∧
      z'.log = w.log := by
  obtain ⟨m, c, hends, hdone, rfl⟩ := World.runProgram_iff.1 ⟨steps, hrun⟩
  have haccepted := World.flush_of_clean hclean
  have hflush := World.flush_of_accepted haccepted
  rw [hflush] at hclean ⊢
  have hstart : Machine.Nested D D' (w.start program) (w'.start program') :=
    ⟨ι, [], ⟨h, .global, .sequence hprogram .global .nil⟩, .done⟩
  obtain ⟨m', ι', hends', hdone', hworld⟩ := hstart.ends hsound hsound' hends hdone hclean
  have hflush' : m'.world.flush host =
      { m'.world with output := (m.world.output.flush host.sink).1 } := by
    rw [World.flush_of_accepted (by rw [hworld.output, haccepted]), hworld.output]
  obtain ⟨steps', hsteps'⟩ := World.runProgram_iff.2 ⟨m', c, hends', hdone', hflush'.symm⟩
  exact ⟨steps', _, hsteps', rfl, hworld.log.trans (hsound.log_ends hends hdone hclean)⟩

/-- Statements that are no declarations are put into braces in a program that passes the grammar and
the analysis: the new program passes the analysis, and if the first one ends without a runtime
report when it is run in a new session, so does the second, with the same output and with no report
at all. -/
theorem Session.braces_redundant {source : String} {program program' : Program} {s : Session}
    (hprepare : Session.initial.prepare source = (some program, s))
    (h : Stmt.BracedAll program program') :
    (World.initial.analyze program').2 = [] ∧
    ∀ host steps w, s.world.runProgram host steps program = some w → w.Clean →
      ∃ steps' w', (World.initial.analyze program').1.runProgram host steps' program' = some w' ∧
        w'.output = w.output ∧ w'.log.reports = #[] := by
  obtain ⟨hread, hworld, herrors⟩ := Session.prepare_read hprepare
  obtain ⟨hle, hspec⟩ := Program.ofSource_spec Session.initial.nextId source
  rw [hread] at hle hspec
  obtain ⟨hshape, hnumbered⟩ := hspec program rfl
  obtain ⟨hids, hshape'⟩ := Stmt.BracedAll.keeps program' h
  have hnumbered' : Numbered Session.initial.nextId (Stmt.idsAll program') s.nextId :=
    hids ▸ hnumbered
  -- what the analysis of each program records
  let D := (World.initial.analyze program).1.distances
  let D' := (World.initial.analyze program').1.distances
  have hbound := Session.sound_initial.bound hshape hnumbered herrors
  have hboundD : Stmt.BoundAll D.recorded .outside {} program :=
    Stmt.BoundAll.mono program (fun _ _ _ hd => hd.2) hbound
  obtain ⟨hany, hnested⟩ : Stmt.BoundAll .any .outside {} program' ∧
      (Stmt.BoundAll D'.recorded .outside {} program' →
        Stmt.NestedAll D D' [] program program') :=
    Stmt.BracedAll.nested program' h .empty Nesting.solid_nil hboundD
  have herrors' : (World.initial.analyze program').2 = [] := by
    rw [World.analyze, Program.errors_of_bound hany (hshape' hshape)]
  have hbound' := Session.sound_initial.bound (hshape' hshape) hnumbered' herrors'
  refine ⟨herrors', fun host steps w hrun hclean => ?_⟩
  have hsound := (Session.sound_initial.analyze hle hshape hnumbered).world.start hbound
  have hsound' :=
    (Session.sound_initial.analyze hle (hshape' hshape) hnumbered').world.start hbound'
  rw [hworld] at hrun
  have hboundD' : Stmt.BoundAll D'.recorded .outside {} program' :=
    Stmt.BoundAll.mono program' (fun _ _ _ hd => hd.2) hbound'
  obtain ⟨steps', w', hrun', houtput, hlog⟩ :=
    (World.nested_initial D D').runProgram (hnested hboundD') hsound hsound' hrun hclean
  exact ⟨steps', w', hrun', houtput, by rw [hlog]; rfl⟩

/-- The branch that is put in braces assigns to a local that is printed afterwards. -/
theorem Session.braces_redundant_branch :
    let a : Token := ⟨.identifier, "a", none, 1⟩
    let bang : Token := ⟨.bang, "!", none, 1⟩
    let host : Host := ⟨fun _ => .ok ⟨0⟩, .unlimited⟩
    let assignment : Stmt := .expression (.assign ⟨a, 2⟩ (.constant (.bool true)))
    let program (s : Stmt) : Program :=
      [.block [.var a none, .branch (.unary bang (.variable ⟨a, 0⟩)) s none,
        .print (.variable ⟨a, 3⟩)]]
    Session.initial.prepare "{var a;if(!a)a=true;print a;}" =
        (some (program assignment), ⟨(World.initial.analyze (program assignment)).1, 4⟩) ∧
      (World.initial.analyze (program (.block [assignment]))).2 = [] ∧
      ∃ steps w', (World.initial.analyze (program (.block [assignment]))).1.runProgram host steps
          (program (.block [assignment])) = some w' ∧
        w'.output.text = "true\n" ∧ w'.log.reports = #[] := by
  intro a bang host assignment program
  have htokens : Source.tokens "{var a;if(!a)a=true;print a;}" = [⟨.leftBrace, "\x7b", none, 1⟩,
      ⟨.varWord, "var", none, 1⟩, a, ⟨.semicolon, ";", none, 1⟩, ⟨.ifWord, "if", none, 1⟩,
      ⟨.leftParen, "(", none, 1⟩, bang, a, ⟨.rightParen, ")", none, 1⟩, a,
      ⟨.equal, "=", none, 1⟩, ⟨.trueWord, "true", none, 1⟩, ⟨.semicolon, ";", none, 1⟩,
      ⟨.printWord, "print", none, 1⟩, a, ⟨.semicolon, ";", none, 1⟩,
      ⟨.rightBrace, "\x7d", none, 1⟩, .endOfInput 1] := by
    decide +kernel
  have hread : Program.ofSource 0 "{var a;if(!a)a=true;print a;}" =
      (.ok (program assignment), 4) := by
    rw [Program.ofSource, htokens, show Source.lexicalReports _ = [] by decide +kernel]
    cbv
  have hprepare := Session.prepare_of_quiet (s := .initial) hread (by decide +kernel)
  have hbraced : Stmt.BracedAll (program assignment) (program (.block [assignment])) :=
    .cons (.block (.cons (.refl _) (.cons (.ifThen _ (.wrap rfl (.refl _))) (.refl _)))) .nil
  obtain ⟨herrors, hrun⟩ := Session.braces_redundant hprepare hbraced
  have hends : (((World.initial.analyze (program assignment)).1.runProgram host 30
      (program assignment)).filter fun w => w.Clean ∧ w.output.text = "true\n").isSome = true := by
    decide +kernel
  obtain ⟨w, hw⟩ := Option.isSome_iff_exists.1 hends
  obtain ⟨hw, hfound⟩ := Option.filter_eq_some_iff.1 hw
  obtain ⟨hclean, htext⟩ : w.Clean ∧ w.output.text = "true\n" := by simpa using hfound
  obtain ⟨steps, w', hw', houtput, hreports⟩ := hrun host 30 w hw hclean
  exact ⟨hprepare, herrors, steps, w', hw', houtput ▸ htext, hreports⟩

end ClassScript
