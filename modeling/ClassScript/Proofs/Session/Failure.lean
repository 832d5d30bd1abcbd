import ClassScript.Proofs.Evaluation.Lifting
import ClassScript.Proofs.Reading.Relabeling
import ClassScript.Proofs.Scoping.Relabeling

/-! # Runs that fail before they begin

A source text with lexical, grammar or static errors is reported and leaves nothing else behind that
could be seen later.  It does use up identities of references, and the analysis may have recorded
distances for some of them.  So the session after it is the session before it with other identities
to come.
-/
namespace ClassScript

namespace Log

theorem toList_addAll (log : Log) (rs : List Report) :
    (log.addAll rs).reports.toList = log.reports.toList ++ rs := by
  induction rs generalizing log with
  | nil => simp [addAll]
  | cons r rs ih =>
    change ((log.add r).addAll rs).reports.toList = _
    rw [ih]
    simp [add]

theorem hadRuntimeError_addAll (log : Log) (rs : List Report) :
    (log.addAll rs).hadRuntimeError = (log.hadRuntimeError || rs.any Report.isRuntime) := by
  induction rs generalizing log with
  | nil => simp [addAll]
  | cons r rs ih =>
    change ((log.add r).addAll rs).hadRuntimeError = _
    rw [ih]
    simp [add, Bool.or_assoc]

theorem append_empty (log : Log) : log.append {} = log := by
  simp [append]

end Log

/-- The second world differs from the first only in identities, and in its log. -/
structure World.Twin (ρ : Relabeling) (w w' : World) : Prop where
  distances : ∀ i, w'.distances[ρ.number i]? = w.distances[i]?
  store : w'.store = w.store.relabel ρ
  output : w'.output = w.output
  clockReads : w'.clockReads = w.clockReads
  hadRuntimeError : w'.log.hadRuntimeError = w.log.hadRuntimeError

/-- Two worlds went on to twins, with the same reports on the way. -/
structure World.Parallel (ρ : Relabeling) (w w' t t' : World) : Prop where
  twin : World.Twin ρ t t'
  reports : ∃ later, t.log.reports.toList = w.log.reports.toList ++ later ∧
    t'.log.reports.toList = w'.log.reports.toList ++ later

namespace World

variable {ρ : Relabeling} {w w' t t' u u' : World}

theorem Twin.parallel (h : Twin ρ w w') : Parallel ρ w w' w w' := ⟨h, [], by simp⟩

theorem Parallel.trans (h : Parallel ρ w w' t t') (h' : Parallel ρ t t' u u') :
    Parallel ρ w w' u u' := by
  obtain ⟨-, later, hlater, hlater'⟩ := h
  obtain ⟨htwin, later₁, hlater₁, hlater₁'⟩ := h'
  refine ⟨htwin, later ++ later₁, ?_, ?_⟩
  · rw [hlater₁, hlater, List.append_assoc]
  · rw [hlater₁', hlater', List.append_assoc]

theorem Twin.reportAll (h : Twin ρ w w') (rs : List Report) :
    Parallel ρ w w' (w.reportAll rs) (w'.reportAll rs) := by
  refine ⟨⟨h.distances, h.store, h.output, h.clockReads, ?_⟩, rs, w.log.toList_addAll rs,
    w'.log.toList_addAll rs⟩
  rw [World.reportAll, World.reportAll, Log.hadRuntimeError_addAll, Log.hadRuntimeError_addAll,
    h.hadRuntimeError]

theorem Twin.flush (h : Twin ρ w w') (host : Host) :
    Parallel ρ w w' (w.flush host) (w'.flush host) := by
  unfold World.flush
  rw [h.output]
  generalize w.output.flush host.sink = flushed
  obtain ⟨output, refusal⟩ := flushed
  have hflushed : Twin ρ { w with output } { w' with output } :=
    ⟨h.distances, h.store, rfl, h.clockReads, h.hadRuntimeError⟩
  cases refusal with
  | none => exact ⟨hflushed, [], by simp⟩
  | some message =>
    have hreported := hflushed.reportAll [.io message]
    exact ⟨hreported.twin, hreported.reports⟩

/-- The analysis finds the same errors, whatever has been recorded before and however references
are numbered. -/
theorem errors_relabel (hline : ρ.KeepsLines)
    (hρ : Function.Injective ρ.number) (w w' : World) (program : Program) :
    (w'.analyze (Stmt.relabelAll ρ program)).2 = (w.analyze program).2 := by
  have hstart : Analysis.Mirrors ρ (fun _ => False) [] { distances := w.distances }
      { distances := w'.distances } := ⟨rfl, fun _ hknown => hknown.elim, rfl⟩
  have herrors := (Stmt.mirrors_analyzeAll hρ .outside .outside program hstart).errors
  have hid : StaticError.relabel ρ = id := by
    funext e
    rw [StaticError.relabel, Token.relabel_eq_self hline]
    rfl
  rwa [hid, List.map_id] at herrors

/-- The analysis of the relabelled program finds the same errors, and twins stay twins. -/
theorem Twin.analyze (h : Twin ρ w w') (hline : ρ.KeepsLines)
    (hρ : Function.Injective ρ.number) (program : Program) :
    (w'.analyze (Stmt.relabelAll ρ program)).2 = (w.analyze program).2 ∧
      Parallel ρ w w' (w.analyze program).1 (w'.analyze (Stmt.relabelAll ρ program)).1 := by
  have hstart : Analysis.Mirrors ρ (fun _ => True) [] { distances := w.distances }
      { distances := w'.distances } := ⟨rfl, fun i _ => h.distances i, rfl⟩
  have hmirrors := Stmt.mirrors_analyzeAll hρ .outside .outside program hstart
  constructor
  · exact errors_relabel hline hρ w w' program
  · exact ⟨⟨fun i => hmirrors.distances i trivial, h.store, h.output, h.clockReads,
      h.hadRuntimeError⟩, [], by simp [World.analyze]⟩

/-- What a program leaves is what its machine leaves, if that stops at the end of a statement. -/
theorem runProgram_eq (w : World) (host : Host) (steps : Nat) (program : Program) :
    w.runProgram host steps program = ((w.start program).run host steps).bind fun m =>
      match m.control with
      | .done _ => some (m.world.flush host)
      | _ => none := by
  rw [World.runProgram, World.execute, World.start]
  cases (w.idle.runList program globalScope).run host steps with
  | none => rfl
  | some m => cases hcontrol : m.control <;> simp [hcontrol]

/-- One machine in two surroundings leads to twins. -/
theorem Twin.inside (h : Twin ρ w w') (hline : ρ.KeepsLines) (u : World) :
    Parallel ρ w w' (u.inside { distances := w.distances, before := w.log })
      (u.inside { ρ with distances := w'.distances, before := w'.log }) := by
  refine ⟨⟨h.distances, ?_, rfl, rfl, ?_⟩, u.log.reports.toList, ?_, ?_⟩
  · rw [inside_store, inside_store, Store.relabel_refl]
  · simp [World.inside, Log.append, Log.relabel, h.hadRuntimeError]
  · have hid : Report.relabel {} = id := funext (Report.relabel_eq_self fun _ => rfl)
    simp [World.inside, Log.append, Log.relabel, hid]
  · have hid : Report.relabel ρ = id := funext (Report.relabel_eq_self hline)
    simp [World.inside, Log.append, Log.relabel, hid]

/-- Twins run a program alike. -/
theorem Twin.runProgram (h : Twin ρ w w') (hline : ρ.KeepsLines) (host : Host) (steps : Nat)
    (program : Program) :
    Option.Rel (Parallel ρ w w') (w.runProgram host steps program)
      (w'.runProgram host steps (Stmt.relabelAll ρ program)) := by
  -- both runs are the run of one machine that has no log yet, in different surroundings
  let m : Machine := { w with log := {} : World }.start program
  let σ : Surroundings := { distances := w.distances, before := w.log }
  let σ' : Surroundings := { ρ with distances := w'.distances, before := w'.log }
  have hstart : w.start program = m.inside σ := by
    have hworld : World.inside σ { w with log := {} } = w := by
      rw [World.inside, Store.relabel_refl]
      simp [σ, Log.relabel, Log.append_empty]
    rw [Machine.inside_start _ _ rfl, hworld, Stmt.relabelAll_refl]
  have hstart' : w'.start (Stmt.relabelAll ρ program) = m.inside σ' := by
    have hworld : World.inside σ' { w with log := {} } = w' := by
      rw [World.inside, ← h.store, ← h.output, ← h.clockReads]
      simp [σ', Log.relabel, Log.append_empty]
    rw [Machine.inside_start _ _ rfl, hworld]
  have hrun : (m.inside σ).run host steps = (m.run host steps).map (Machine.inside σ) :=
    Machine.run_inside (Machine.sharesRun_of_all (fun _ _ => rfl) fun _ => rfl) rfl steps
  have hrun' : (m.inside σ').run host steps = (m.run host steps).map (Machine.inside σ') :=
    Machine.run_inside (Machine.sharesRun_of_all (fun _ _ => rfl) h.distances) rfl steps
  rw [runProgram_eq, runProgram_eq, hstart, hstart', hrun, hrun']
  cases m.run host steps with
  | none => exact .none
  | some z =>
    obtain ⟨control, frames, scope, world⟩ := z
    cases control with
    | done c =>
      have hinside := h.inside hline world
      exact .some (hinside.trans (hinside.twin.flush host))
    | _ => exact .none

end World

namespace Session

/-- The second session differs from the first only in identities, and in its log. -/
structure Twin (ρ : Relabeling) (s s' : Session) : Prop where
  world : World.Twin ρ s.world s'.world
  counts : ρ.CountsFrom s.nextId
  nextId : s'.nextId = ρ.number s.nextId

/-- Two sessions went on to twins, with the same reports on the way. -/
structure Parallel (ρ : Relabeling) (s s' t t' : Session) : Prop where
  twin : Twin ρ t t'
  world : World.Parallel ρ s.world s'.world t.world t'.world

section Parallel

variable {ρ : Relabeling} {s s' t t' u u' : Session}

theorem Parallel.trans (h : Parallel ρ s s' t t') (h' : Parallel ρ t t' u u') :
    Parallel ρ s s' u u' :=
  ⟨h'.twin, h.world.trans h'.world⟩

theorem Twin.reset (h : Twin ρ s s') : Parallel ρ s s' s.reset s'.reset := by
  have hworld : World.Parallel ρ s.world s'.world s.reset.world s'.reset.world :=
    ⟨⟨h.world.distances, h.world.store, h.world.output, h.world.clockReads, rfl⟩, [], by
      simp [Session.reset, Log.reset]⟩
  exact ⟨⟨hworld.twin, h.counts, h.nextId⟩, hworld⟩

theorem prepare_le (s : Session) (source : String) : s.nextId ≤ (s.prepare source).2.nextId := by
  have hle := (Program.ofSource_spec s.nextId source).1
  unfold Session.prepare
  generalize Program.ofSource s.nextId source = reading at hle ⊢
  obtain ⟨reading, nextId⟩ := reading
  cases reading with
  | error reports => exact hle
  | ok program =>
    dsimp only
    split <;> exact hle

/-- Twins read and analyse a source text alike. -/
theorem Twin.prepare (h : Twin ρ s s') (hline : ρ.KeepsLines) (hρ : Function.Injective ρ.number)
    (source : String) :
    (s'.prepare source).1 = (s.prepare source).1.map (Stmt.relabelAll ρ) ∧
      Parallel ρ s s' (s.prepare source).2 (s'.prepare source).2 := by
  have hread := Program.ofSource_relabel h.counts hline source
  have hle := (Program.ofSource_spec s.nextId source).1
  rw [← h.nextId] at hread
  unfold Session.prepare
  rw [hread]
  generalize Program.ofSource s.nextId source = reading at hle
  obtain ⟨reading, nextId⟩ := reading
  have hcounts : ρ.CountsFrom nextId := fun i hi => h.counts i (Nat.le_trans hle hi)
  cases reading with
  | error reports =>
    have hworld := h.world.reportAll reports
    exact ⟨rfl, ⟨hworld.twin, hcounts, rfl⟩, hworld⟩
  | ok program =>
    obtain ⟨herrors, hworld⟩ := h.world.analyze hline hρ program
    dsimp only [Except.map]
    generalize s'.world.analyze (Stmt.relabelAll ρ program) = analyzed' at herrors hworld
    obtain ⟨world', errors'⟩ := analyzed'
    obtain rfl : errors' = _ := herrors
    generalize s.world.analyze program = analyzed at hworld
    obtain ⟨world, errors⟩ := analyzed
    cases errors with
    | nil => exact ⟨rfl, ⟨hworld.twin, hcounts, rfl⟩, hworld⟩
    | cons e errors =>
      have hall := hworld.trans (hworld.twin.reportAll ((e :: errors).map StaticError.report))
      exact ⟨rfl, ⟨hall.twin, hcounts, rfl⟩, hall⟩

/-- Twins run a source text alike. -/
theorem Twin.run (h : Twin ρ s s') (hline : ρ.KeepsLines) (hρ : Function.Injective ρ.number)
    (host : Host) (steps : Nat) (source : String) :
    Option.Rel (fun r r' => r'.1 = r.1 ∧ Parallel ρ s s' r.2 r'.2) (s.run host steps source)
      (s'.run host steps source) := by
  obtain ⟨hprogram, hparallel⟩ := h.prepare hline hρ source
  unfold Session.run
  generalize s'.prepare source = prepared' at hprogram hparallel
  generalize s.prepare source = prepared at hprogram hparallel
  obtain ⟨program, t⟩ := prepared
  obtain ⟨program', t'⟩ := prepared'
  obtain rfl : program' = _ := hprogram
  cases program with
  | none => exact .some ⟨rfl, hparallel⟩
  | some program =>
    dsimp only [Option.map_some]
    have hrun := hparallel.twin.world.runProgram hline host steps program
    generalize t.world.runProgram host steps program = result,
      t'.world.runProgram host steps (Stmt.relabelAll ρ program) = result' at hrun
    cases hrun with
    | none => exact .none
    | @some world world' hworld =>
      have houtcome : world'.log.hadRuntimeError = world.log.hadRuntimeError :=
        hworld.twin.hadRuntimeError
      refine .some ⟨?_, ⟨hworld.twin, hparallel.twin.counts, hparallel.twin.nextId⟩,
        hparallel.world.trans hworld⟩
      simp [Session.outcome, houtcome]

end Parallel

/-- What a session is asked to do. -/
inductive Request where
  | run (host : Host) (steps : Nat) (source : String)
  | reset

/-- A run has an outcome, unless its steps do not suffice. -/
def answer (s : Session) : Request → Option (List Outcome × Session)
  | .run host steps source => (s.run host steps source).map fun (outcome, s) => ([outcome], s)
  | .reset => some ([], s.reset)

/-- One request after another: the outcomes of all runs and the session in the end. -/
def answerAll (s : Session) : List Request → Option (List Outcome × Session)
  | [] => some ([], s)
  | request :: requests =>
    (s.answer request).bind fun (outcomes, s) =>
      (s.answerAll requests).map fun (outcomes', s) => (outcomes ++ outcomes', s)

section Answer

variable {ρ : Relabeling} {s s' : Session}

theorem Twin.answer (h : Twin ρ s s') (hline : ρ.KeepsLines) (hρ : Function.Injective ρ.number)
    (request : Request) :
    Option.Rel (fun r r' => r'.1 = r.1 ∧ Parallel ρ s s' r.2 r'.2) (s.answer request)
      (s'.answer request) := by
  cases request with
  | reset => exact .some ⟨rfl, h.reset⟩
  | run host steps source =>
    have hrun := h.run hline hρ host steps source
    simp only [Session.answer]
    generalize s.run host steps source = result, s'.run host steps source = result' at hrun
    cases hrun with
    | none => exact .none
    | some hboth => exact .some ⟨congrArg (fun outcome => [outcome]) hboth.1, hboth.2⟩

/-- Twins answer all requests alike. -/
theorem Twin.answerAll (h : Twin ρ s s') (hline : ρ.KeepsLines)
    (hρ : Function.Injective ρ.number) (requests : List Request) :
    Option.Rel (fun r r' => r'.1 = r.1 ∧ Parallel ρ s s' r.2 r'.2) (s.answerAll requests)
      (s'.answerAll requests) := by
  induction requests generalizing s s' with
  | nil => exact .some ⟨rfl, h, h.world.parallel⟩
  | cons request requests ih =>
    have hfirst := h.answer hline hρ request
    simp only [Session.answerAll]
    generalize s.answer request = first, s'.answer request = first' at hfirst
    cases hfirst with
    | none => exact .none
    | @some first first' hboth =>
      obtain ⟨houtcomes, hparallel⟩ := hboth
      have hrest := ih hparallel.twin
      simp only [Option.bind_some]
      generalize first.2.answerAll requests = rest, first'.2.answerAll requests = rest' at hrest
      cases hrest with
      | none => exact .none
      | some hboth => exact .some ⟨by simp only [houtcomes, hboth.1], hparallel.trans hboth.2⟩

end Answer

/-- The text has a lexical, a grammar or a static error. -/
def Fails (s : Session) (source : String) : Prop :=
  Source.lexicalReports source ≠ [] ∨
    (∃ errors, (Program.ofTokens s.nextId (Source.tokens source)).outcome = .error errors) ∨
    ∃ program nextId, Program.ofSource s.nextId source = (.ok program, nextId) ∧
      (s.world.analyze program).2 ≠ []

/-- A text with lexical or grammar errors is no program, and there is something to report. -/
theorem ofSource_error {nextId : Nat} {source : String}
    (h : Source.lexicalReports source ≠ [] ∨
      ∃ errors, (Program.ofTokens nextId (Source.tokens source)).outcome = .error errors) :
    ∃ reports, reports ≠ [] ∧ (Program.ofSource nextId source).1 = .error reports := by
  have hspec := (Program.ofTokens_spec nextId (Source.tokens source)).2
  unfold Program.ofSource
  dsimp only
  generalize (Program.ofTokens nextId (Source.tokens source)).outcome = outcome at h hspec
  cases outcome with
  | ok program =>
    have hlexical : Source.lexicalReports source ≠ [] := by simpa using h
    exact ⟨_, hlexical, by simp [hlexical]⟩
  | error errors => exact ⟨_, by simpa using fun _ => hspec, rfl⟩

/-- The session reports static errors of the text, and all else that is there stays what it is. -/
structure Refuses (s : Session) (source : String) (s' : Session) : Prop where
  prepare : s.prepare source = (none, s')
  log : ∃ reports, reports ≠ [] ∧ (∀ r ∈ reports, r.isRuntime = false) ∧
    s'.world.log = s.world.log.addAll reports
  store : s'.world.store = s.world.store
  output : s'.world.output = s.world.output
  clockReads : s'.world.clockReads = s.world.clockReads
  distances : ∀ i, i < s.nextId → s'.world.distances[i]? = s.world.distances[i]?

variable {s s' : Session} {source : String}

theorem refuses_of_error {reports : List Report} {nextId : Nat} (hne : reports ≠ [])
    (hread : Program.ofSource s.nextId source = (.error reports, nextId)) :
    s.Refuses source ⟨s.world.reportAll reports, nextId⟩ := by
  have hstatic := static_ofSource s.nextId source reports (by rw [hread])
  refine ⟨?_, ⟨reports, hne, hstatic, rfl⟩, rfl, rfl, rfl, fun _ _ => rfl⟩
  rw [Session.prepare, hread]

theorem refuses_of_analysis {program : Program} {nextId : Nat}
    (hread : Program.ofSource s.nextId source = (.ok program, nextId))
    (herrors : (s.world.analyze program).2 ≠ []) :
    s.Refuses source ⟨(s.world.analyze program).1.reportAll
      ((s.world.analyze program).2.map StaticError.report), nextId⟩ := by
  obtain ⟨hshape, hids⟩ := (Program.ofSource_spec s.nextId source).2 program (by rw [hread])
  have hmoves := Stmt.moves_analyzeAll .outside .outside program
    { distances := s.world.distances } hshape
  refine ⟨?_, ⟨_, by simpa using herrors, ?_, rfl⟩, rfl, rfl, rfl, fun i hi => ?_⟩
  · rw [Session.prepare, hread]
    dsimp only
    generalize s.world.analyze program = analyzed at herrors
    obtain ⟨world, errors⟩ := analyzed
    cases errors with
    | nil => exact absurd rfl herrors
    | cons e errors => rfl
  · intro r hr
    obtain ⟨e, -, rfl⟩ := List.mem_map.1 hr
    rfl
  · exact hmoves.others i fun hmem => absurd (hids.bounds i hmem).1 (Nat.not_le.2 hi)

theorem Fails.refuses (h : s.Fails source) : ∃ s', s.Refuses source s' := by
  have hrefuses (h : Source.lexicalReports source ≠ [] ∨
      ∃ errors, (Program.ofTokens s.nextId (Source.tokens source)).outcome = .error errors) :
      ∃ s', s.Refuses source s' := by
    obtain ⟨reports, hne, hread⟩ := ofSource_error h
    exact ⟨_, refuses_of_error hne (Prod.ext hread rfl)⟩
  rcases h with hlexical | hgrammar | ⟨program, nextId, hread, herrors⟩
  · exact hrefuses (.inl hlexical)
  · exact hrefuses (.inr hgrammar)
  · exact ⟨_, refuses_of_analysis hread herrors⟩

theorem Refuses.run (h : s.Refuses source s') (host : Host) (steps : Nat) :
    s.run host steps source = some (.staticError, s') := by
  rw [Session.run, h.prepare]

/-- The code in the store of a session in order has no references to come. -/
theorem Sound.relabel_store (h : s.Sound) {ρ : Relabeling} (hline : ρ.KeepsLines)
    (hρ : ∀ i, i < s.nextId → ρ.number i = i) : s.world.store.relabel ρ = s.world.store := by
  have hread {d : FunctionDecl} {fn : FunctionContext} {ctx : Context}
      (hd : d.Bound s.recorded fn ctx) (i : Nat) (hi : i ∈ d.ids) : ρ.number i = i := by
    obtain ⟨_, hlt, -⟩ := FunctionDecl.Bound.recorded d hd i hi
    exact hρ i hlt
  apply Store.relabel_eq_self hline
  · intro id i hi
    obtain ⟨fn, ctx, -, hbound, -⟩ := h.world.store.functions id
    exact hread hbound i hi
  · intro id name c hc i hi
    obtain ⟨fn, ctx, -, hbound, -⟩ := h.world.store.methods id name c hc
    exact hread hbound i hi

/-- The session after a refused text is a twin of the one before it: references to come have other
identities, and those that are there keep theirs. -/
theorem Refuses.twin (hs : s.Sound) (h : s.Refuses source s') :
    Twin (.shift s.nextId (s'.nextId - s.nextId)) s s' := by
  have hs' : s'.Sound := by
    have hprepared := (hs.prepare source).1
    rwa [h.prepare] at hprepared
  have hle : s.nextId ≤ s'.nextId := by
    have hle := prepare_le s source
    rwa [h.prepare] at hle
  obtain ⟨reports, -, hstatic, hlog⟩ := h.log
  refine ⟨⟨fun i => ?_, ?_, h.output, h.clockReads, ?_⟩, Relabeling.countsFrom_shift _ _, ?_⟩
  · rcases Nat.lt_or_ge i s.nextId with hi | hi
    · rw [Relabeling.shift_of_lt hi, h.distances i hi]
    · rw [Relabeling.shift_of_ge hi, hs.unread i hi, hs'.unread _ (by omega)]
  · rw [h.store, hs.relabel_store (Relabeling.keepsLines_shift _ _) fun i =>
      Relabeling.shift_of_lt]
  · have hnone : reports.any Report.isRuntime = false := by simpa using hstatic
    rw [hlog, Log.hadRuntimeError_addAll, hnone, Bool.or_false]
  · rw [Relabeling.shift_of_ge (Nat.le_refl _)]
    omega

/-- A run that fails in reading or in the analysis leaves no trace but its reports.  Its outcome is
a static error, it prints nothing, it adds reports, none of them of the run time, and whatever is
asked of the session afterwards, the outcomes, the output and the reports to come are those of a
session that never saw the text. -/
theorem failure_untraced (hs : s.Reachable) (hfails : s.Fails source) :
    ∃ s', (∀ host steps, s.run host steps source = some (.staticError, s')) ∧
      s'.world.output = s.world.output ∧
      (∃ reports, reports ≠ [] ∧ (∀ r ∈ reports, r.isRuntime = false) ∧
        s'.world.log = s.world.log.addAll reports) ∧
      ∀ requests, Option.Rel (fun (outcomes, t) (outcomes', t') =>
        outcomes' = outcomes ∧ t'.world.output = t.world.output ∧
          ∃ later, t.world.log.reports.toList = s.world.log.reports.toList ++ later ∧
            t'.world.log.reports.toList = s'.world.log.reports.toList ++ later)
        (s.answerAll requests) (s'.answerAll requests) := by
  obtain ⟨s', hrefuses⟩ := hfails.refuses
  refine ⟨s', hrefuses.run, hrefuses.output, hrefuses.log, fun requests => ?_⟩
  have hanswers := (hrefuses.twin hs.sound).answerAll (Relabeling.keepsLines_shift _ _)
    (Relabeling.injective_shift _ _) requests
  generalize s.answerAll requests = answers, s'.answerAll requests = answers' at hanswers
  cases hanswers with
  | none => exact .none
  | some hboth => exact .some ⟨hboth.1, hboth.2.twin.world.output, hboth.2.world.reports⟩

/-- A return outside all functions keeps the text from running, but a distance stays on record. -/
theorem failure_untraced_return :
    let host : Host := ⟨fun _ => .ok ⟨0⟩, .unlimited⟩
    let source := "{var a=1;print a;return;}"
    let requests : List Request := [.run host 40 "var b=2;{print b;}", .reset]
    ∃ s' t', Session.initial.Fails source ∧
      Session.initial.run host 0 source = some (.staticError, s') ∧
      s'.world.distances[0]? = some 0 ∧
      s'.answerAll requests = some ([.ok], t') ∧ t'.world.output.text = "2\n" := by
  intro host source requests
  have hread := @ofSource_of_isSome 0 source (by decide +kernel)
  have hfails : Session.initial.Fails source := .inr (.inr ⟨_, _, hread, by decide +kernel⟩)
  have hdistances : ((Session.initial.run host 0 source).bind
      fun r => r.2.world.distances[0]?) = some 0 := by decide +kernel
  have hanswers : (Session.initial.answerAll requests).map
      (fun r => (r.1, r.2.world.output.text)) = some ([.ok], "2\n") := by decide +kernel
  obtain ⟨s', hrun, -, -, hlater⟩ := failure_untraced .initial hfails
  have hboth := hlater requests
  rw [hrun host 0] at hdistances
  generalize Session.initial.answerAll requests = answers at hanswers hboth
  generalize hanswers' : s'.answerAll requests = answers' at hboth
  cases hboth with
  | none => cases hanswers
  | @some answer answer' hboth =>
    obtain ⟨houtcomes, htext⟩ := Prod.mk.inj (Option.some.inj hanswers)
    refine ⟨s', answer'.2, hfails, hrun host 0, hdistances, ?_, ?_⟩
    · rw [hanswers', ← houtcomes, ← hboth.1]
    · rw [hboth.2.1, htext]

end Session

end ClassScript
