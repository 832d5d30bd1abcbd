import ClassScript.Proofs.Renaming.Steps
import ClassScript.Proofs.Session.Reachable

/-! # Renaming a local variable changes nothing

A program in which a local variable or parameter has been renamed passes the analysis like the
original one, with the same distances, and runs as that does: step by step, with the same output and
outcome.  Only reports that the variable is undefined show its new name.
-/
namespace ClassScript

variable {ρ : Renaming}

/-! ### The old name -/

/-- What is known of a name that a program declares. -/
structure Renaming.OldDeclared (ρ : Renaming) : Prop where
  differ : ρ.old ≠ ρ.new
  plain : ρ.old ≠ "this" ∧ ρ.old ≠ "super"

theorem Renaming.oldDeclared {t : Token} (ht : t.lexeme = ρ.old) (hplain : t.IsPlain)
    (hnew : t.lexeme ≠ ρ.new) : ρ.OldDeclared :=
  ⟨ht ▸ hnew, ht ▸ hplain⟩

theorem Renaming.OldDeclared.proper (h : ρ.OldDeclared)
    (hnew : Token.Kind.ofWord ρ.new = .identifier) : ρ.Proper := by
  refine ⟨h.differ, h.plain, fun hthis => ?_, fun hsuper => ?_⟩
  · rw [hthis] at hnew
    exact absurd hnew (by decide)
  · rw [hsuper] at hnew
    exact absurd hnew (by decide)

theorem Stmt.DeclaresVariable.old {body : List Stmt} (h : Stmt.DeclaresVariable ρ.old body)
    (hshape : Stmt.ShapedAll body) (hlacks : Stmt.LacksAll ρ.new body) : ρ.OldDeclared := by
  obtain ⟨t, initial, hmem, ht⟩ := h
  induction body with
  | nil => cases hmem
  | cons s body ih =>
    rcases List.mem_cons.1 hmem with rfl | hmem
    · refine Renaming.oldDeclared ht hshape.1.1 ?_
      cases initial with
      | none => exact hlacks.1
      | some e => exact hlacks.1.1
    · exact ih hshape.2 hlacks.2 hmem

mutual

theorem Stmt.Renamed.old (s : Stmt) {s' : Stmt} (h : Stmt.Renamed ρ s s') (hshape : s.Shaped)
    (hlacks : s.Lacks ρ.new) : ρ.OldDeclared := by
  cases h with
  | here h => exact h.old hshape hlacks
  | @block body body' h => exact Stmt.RenamedAll.old body h hshape hlacks
  | @positive c s s' t h =>
    cases t with
    | none => exact Stmt.Renamed.old s h hshape.2.1 hlacks.2
    | some t => exact Stmt.Renamed.old s h hshape.2.1.1 hlacks.2.1
  | @negative c s t t' h => exact Stmt.Renamed.old t h hshape.2.2.1 hlacks.2.2
  | @loop c s s' h => exact Stmt.Renamed.old s h hshape.2.1 hlacks.2
  | @function d d' h => exact FunctionDecl.Renamed.old d h hshape.2 hlacks.2
  | @cls name superclass methods methods' h =>
    cases superclass with
    | none => exact FunctionDecl.RenamedAll.old methods h hshape.2.2 hlacks.2
    | some superclass => exact FunctionDecl.RenamedAll.old methods h hshape.2.2 hlacks.2.2
termination_by structural s

theorem Stmt.RenamedAll.old (ss : List Stmt) {ss' : List Stmt} (h : Stmt.RenamedAll ρ ss ss')
    (hshape : Stmt.ShapedAll ss) (hlacks : Stmt.LacksAll ρ.new ss) : ρ.OldDeclared := by
  cases h with
  | @head s s' ss h => exact Stmt.Renamed.old s h hshape.1 hlacks.1
  | @tail s ss ss' h => exact Stmt.RenamedAll.old ss h hshape.2 hlacks.2
termination_by structural ss

theorem FunctionDecl.Renamed.old (d : FunctionDecl) {d' : FunctionDecl}
    (h : FunctionDecl.Renamed ρ d d') (hshape : d.Shaped) (hlacks : d.Lacks ρ.new) :
    ρ.OldDeclared := by
  cases h with
  | here h =>
    rcases h with ⟨p, hp, hname⟩ | hvariable
    · exact Renaming.oldDeclared hname (hshape.1 p hp) (hlacks.1 p hp)
    · exact hvariable.old hshape.2 hlacks.2
  | @body name parameters body body' h => exact Stmt.RenamedAll.old body h hshape.2 hlacks.2
termination_by structural d

theorem FunctionDecl.RenamedAll.old (ds : List FunctionDecl) {ds' : List FunctionDecl}
    (h : FunctionDecl.RenamedAll ρ ds ds') (hshape : FunctionDecl.ShapedAll ds)
    (hlacks : FunctionDecl.LacksAll ρ.new ds) : ρ.OldDeclared := by
  cases h with
  | @head d d' ds h => exact FunctionDecl.Renamed.old d h hshape.1 hlacks.1
  | @tail d ds ds' h => exact FunctionDecl.RenamedAll.old ds h hshape.2 hlacks.2
termination_by structural ds

end

/-! ### Whole runs -/

/-- A world in which nothing has happened yet is like itself. -/
theorem World.alike_initial (ρ : Renaming) :
    World.Alike ρ (fun _ => false) { World.initial with distances := ρ.distances }
      { World.initial with distances := ρ.distances } := by
  refine ⟨?_, rfl, rfl, rfl, rfl, ⟨.nil, rfl, rfl⟩⟩
  have hglobal : globalScope < World.initial.store.nextScope := by decide
  refine ⟨rfl, fun _ => rfl, fun k name _ => ?_, rfl, fun id => ?_, rfl, fun id => ?_, rfl, rfl,
    rfl, hglobal, rfl⟩
  · rw [Renaming.name_false]
  · rw [World.closure_initial]
    exact ⟨rfl, rfl, [], rfl, .mk false (by simp) .nil⟩
  · rw [World.classOf_initial]
    exact ⟨rfl, rfl, fun _ => .none⟩

/-- Two programs that are alike run equally long and leave worlds that are alike. -/
theorem World.Alike.runProgram (hρ : ρ.Proper) {R : Recorded} {T : Tags} {w w' : World}
    (h : World.Alike ρ T w w') {program program' : Program}
    (hprogram : Stmt.AlikeAll ρ [] program program') (hsound : (w.start program).Sound R)
    (host : Host) (steps : Nat) :
    Option.Rel (fun w w' => ∃ T, World.Alike ρ T w w') (w.runProgram host steps program)
      (w'.runProgram host steps program') := by
  have hmarked : Store.Marked T w.store [] globalScope := rfl
  have hstart : Machine.Alike ρ (w.start program) (w'.start program') :=
    ⟨T, [], ⟨h, rfl, hmarked, .sequence hprogram hmarked .nil⟩, .done⟩
  have hrun := hstart.run host hρ hsound steps
  unfold World.runProgram World.execute
  rw [World.start, World.start] at hrun
  generalize (w.idle.runList program globalScope).run host steps = r,
    (w'.idle.runList program' globalScope).run host steps = r' at hrun
  cases hrun with
  | none => exact .none
  | @some m m' halike =>
    obtain ⟨T', marks, hmatches, hcontrol⟩ := halike
    have hflush : Option.Rel (fun w w' => ∃ T, World.Alike ρ T w w')
        (some (m.world.flush host)) (some (m'.world.flush host)) :=
      .some ⟨T', hmatches.world.flush host⟩
    simp only [Option.bind_some]
    generalize m.control = c, m'.control = c' at hcontrol
    cases hcontrol with
    | done => exact hflush
    | _ => exact .none

/-- A local variable or parameter is renamed in a program that passes the grammar and the analysis:
the new program passes the analysis with the same distances, and if the first one ends when it is
run in a new session, so does the second, with the same output and outcome, and with the same
reports but for the name of the variable where it is undefined. -/
theorem Session.rename_local {source : String} {program program' : Program} {s : Session}
    (hprepare : Session.initial.prepare source = (some program, s)) {ρ : Renaming}
    (hdistances : ρ.distances = s.world.distances) (hnew : Token.Kind.ofWord ρ.new = .identifier)
    (hlacks : Stmt.LacksAll ρ.new program) (h : Stmt.RenamedAll ρ program program') :
    (World.initial.analyze program').2 = [] ∧
    (World.initial.analyze program').1.distances = s.world.distances ∧
    ∀ host steps w, s.world.runProgram host steps program = some w →
      ∃ w', (World.initial.analyze program').1.runProgram host steps program' = some w' ∧
        w'.output = w.output ∧
        ({ s with world := w' } : Session).outcome = ({ s with world := w } : Session).outcome ∧
        List.Forall₂ (Report.Alike ρ) w.log.reports.toList w'.log.reports.toList := by
  obtain ⟨hshape, hworld, herrors⟩ := Session.prepare_some hprepare
  obtain ⟨hsound, hbound⟩ := Session.sound_initial.prepare source
  rw [hprepare] at hsound hbound
  have hwithin : s.recorded.Within ρ.recorded (Stmt.idsAll program) := by
    intro id _ d hd
    rw [Renaming.recorded, hdistances]
    exact hd.2
  have hbound' := Stmt.BoundAll.mono program hwithin (hbound program rfl)
  have hρ := (Stmt.RenamedAll.old program h hshape hlacks).proper hnew
  have hprogram := Stmt.RenamedAll.alike (SameMarks.refl []) program h hshape hlacks hbound'
  have hanalysis : Analysis.Alike ρ [] (program.analyze World.initial.distances)
      (program'.analyze World.initial.distances) :=
    Stmt.alike_analyzeAll hρ {} program hprogram hbound' hshape ⟨.nil, rfl, rfl⟩ rfl
  have hworld' : (World.initial.analyze program').1 =
      { World.initial with distances := ρ.distances } := by
    rw [World.analyze, hanalysis.distances, hdistances, hworld]
    rfl
  have hworld : s.world = { World.initial with distances := ρ.distances } := by
    rw [hdistances, hworld]
    rfl
  refine ⟨?_, by rw [hworld', hdistances], fun host steps w hw => ?_⟩
  · rw [World.analyze, hanalysis.errors]
    exact herrors
  have hstart := hsound.world.start (hbound program rfl)
  rw [hworld] at hstart hw
  have hrun := (World.alike_initial ρ).runProgram hρ hprogram hstart host steps
  rw [hw] at hrun
  rw [hworld']
  generalize World.runProgram host steps { World.initial with distances := ρ.distances } program' =
    result at hrun ⊢
  cases hrun with
  | @some _ w' halike =>
    obtain ⟨T, halike⟩ := halike
    refine ⟨w', rfl, halike.output, ?_, halike.log.reports⟩
    simp only [Session.outcome, halike.log.hadRuntimeError]

/-- The outer of two locals is renamed, and printed before the inner one hides it. -/
theorem Session.rename_local_shadowed :
    let a : Token := ⟨.identifier, "a", none, 1⟩
    let b : Token := ⟨.identifier, "b", none, 1⟩
    let host : Host := ⟨fun _ => .ok ⟨0⟩, .unlimited⟩
    let program (outer : Token) : Program :=
      [.block [.var outer none, .block [.print (.variable ⟨outer, 0⟩), .var a none]]]
    Session.initial.prepare "{var a;{print a;var a;}}" =
        (some (program a), ⟨(World.initial.analyze (program a)).1, 1⟩) ∧
      (World.initial.analyze (program b)).2 = [] ∧
      ∃ w w', (World.initial.analyze (program a)).1.runProgram host 30 (program a) = some w ∧
        (World.initial.analyze (program b)).1.runProgram host 30 (program b) = some w' ∧
        w'.output = w.output ∧ w'.output.text = "nil\n" := by
  intro a b host program
  have htokens : Source.tokens "{var a;{print a;var a;}}" = [⟨.leftBrace, "\x7b", none, 1⟩,
      ⟨.varWord, "var", none, 1⟩, a, ⟨.semicolon, ";", none, 1⟩, ⟨.leftBrace, "\x7b", none, 1⟩,
      ⟨.printWord, "print", none, 1⟩, a, ⟨.semicolon, ";", none, 1⟩, ⟨.varWord, "var", none, 1⟩, a,
      ⟨.semicolon, ";", none, 1⟩, ⟨.rightBrace, "\x7d", none, 1⟩,
      ⟨.rightBrace, "\x7d", none, 1⟩, .endOfInput 1] := by
    decide +kernel
  have hread : Program.ofSource 0 "{var a;{print a;var a;}}" = (.ok (program a), 1) := by
    rw [Program.ofSource, htokens, show Source.lexicalReports _ = [] by decide +kernel]
    rfl
  have hprepare := Session.prepare_of_quiet (s := .initial) hread (by decide +kernel)
  let ρ : Renaming := ⟨(World.initial.analyze (program a)).1.distances, "a", "b"⟩
  have hlacks : Stmt.LacksAll ρ.new (program a) := by
    simp [program, a, ρ, Stmt.LacksAll, Stmt.Lacks, Expr.Lacks]
  have hrenamed : Stmt.RenamedAll ρ (program a) (program b) :=
    .head (.here ⟨a, none, .head _, rfl⟩)
  obtain ⟨herrors, -, hrun⟩ := Session.rename_local hprepare rfl (by decide) hlacks hrenamed
  have hprints : (World.runProgram host 30 (World.initial.analyze (program a)).1 (program a)).map
      (fun w => w.output.text) = some "nil\n" := by decide +kernel
  obtain ⟨w, hw, htext⟩ := Option.map_eq_some_iff.1 hprints
  obtain ⟨w', hw', houtput, -⟩ := hrun host 30 w hw
  exact ⟨hprepare, herrors, w, w', hw, hw', houtput, by rw [houtput, htext]⟩

end ClassScript
