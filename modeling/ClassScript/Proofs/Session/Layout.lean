import ClassScript.Proofs.Session.Failure

/-! # Layout

Where the tokens of a text stand makes no difference.  Two texts with the same tokens but for their
lines are read alike and run alike.  Both are compared with one program that has no lines at all:
lines are labels, and evaluation does not depend on labels.
-/
namespace ClassScript

namespace Relabeling

/-- All lines are forgotten, and identities are counted from `lo` on. -/
def unlined (lo : Nat) : Relabeling := { line := Function.const Nat 0, number := fun i => i - lo }

theorem countsFrom_unlined {lo n : Nat} (h : lo ≤ n) : (unlined lo).CountsFrom n := by
  intro i hi
  simp only [unlined]
  omega

theorem injective_unlined : Function.Injective (unlined 0).number := fun _ _ h => h

end Relabeling

open Relabeling (unlined)

namespace Source

/-- The two texts differ in nothing but layout: they have no lexical errors, and their tokens agree
in kind, lexeme and literal. -/
structure Reformats (source source' : String) : Prop where
  lexical : lexicalReports source = []
  lexical' : lexicalReports source' = []
  tokens : (tokens source).map (fun t => (t.kind, t.lexeme, t.literal)) =
    (tokens source').map (fun t => (t.kind, t.lexeme, t.literal))

theorem Reformats.unlined {source source' : String} (h : Reformats source source') :
    (Source.tokens source).map (Token.relabel (unlined 0)) =
      (Source.tokens source').map (Token.relabel (unlined 0)) := by
  have hparts := congrArg (List.map fun parts => Token.mk parts.1 parts.2.1 parts.2.2 0) h.tokens
  rw [List.map_map, List.map_map] at hparts
  exact hparts

/-- Every text has an end. -/
theorem find?_endOfInput (source : String) :
    ∃ t, (tokens source).find? (fun t => t.kind == .endOfInput) = some t := by
  have hitems (line : Nat) (ps : List Piece) :
      ∃ line', Item.token (.endOfInput line') ∈ itemsFrom line ps := by
    induction ps generalizing line with
    | nil => exact ⟨line, by simp [itemsFrom]⟩
    | cons p ps ih =>
      rw [itemsFrom]
      split
      · exact ih _
      · obtain ⟨line', hline'⟩ := ih (line + p.newlines)
        exact ⟨line', List.mem_cons_of_mem _ hline'⟩
  obtain ⟨line, hline⟩ := hitems 1 (pieces source.toList)
  apply Option.isSome_iff_exists.1
  rw [List.find?_isSome]
  exact ⟨_, List.mem_filterMap.2 ⟨_, hline, rfl⟩, rfl⟩

end Source

namespace Program

/-- Two programs, or two lists of reports, that differ in nothing but labels. -/
inductive ReadAlike : Except (List Report) Program → Except (List Report) Program → Prop where
  | ok {p q : Program} {ρ ρ' : Relabeling} (h : Stmt.relabelAll ρ p = Stmt.relabelAll ρ' q) :
      ReadAlike (.ok p) (.ok q)
  | error {rs rs' : List Report} {ρ ρ' : Relabeling}
      (h : rs.map (Report.relabel ρ) = rs'.map (Report.relabel ρ')) :
      ReadAlike (.error rs) (.error rs')

/-- A text is read as its tokens without lines are. -/
theorem ofSource_unlined {lo n : Nat} (hlo : lo ≤ n) {source : String}
    (hlexical : Source.lexicalReports source = []) :
    let reading := ofTokens (n - lo) ((Source.tokens source).map (Token.relabel (unlined 0)))
    (∀ program, (ofSource n source).1 = .ok program →
      reading.outcome = .ok (Stmt.relabelAll (unlined lo) program)) ∧
    ∀ reports, (ofSource n source).1 = .error reports →
      ∃ errors, reading.outcome = .error errors ∧
        reports.map (Report.relabel (unlined lo)) = errors.map GrammarError.report := by
  have htoken : Token.relabel (unlined 0) = Token.relabel (unlined lo) := rfl
  have hlast : lastToken ((Source.tokens source).map (Token.relabel (unlined lo))) =
      (lastToken (Source.tokens source)).relabel (unlined lo) := by
    obtain ⟨t, ht⟩ := Source.find?_endOfInput source
    have hkind : ((fun t : Token => t.kind == .endOfInput) ∘ Token.relabel (unlined lo)) =
        fun t => t.kind == .endOfInput := rfl
    simp [lastToken, List.find?_map, hkind, ht]
  obtain ⟨houtcome, -⟩ := ofTokens_relabel (Relabeling.countsFrom_unlined hlo) hlast
  change (ofTokens (n - lo) _).outcome = _ at houtcome
  intro reading
  have hreading : reading.outcome = _ := houtcome
  rw [hreading, ofSource, hlexical]
  cases (ofTokens n (Source.tokens source)).outcome with
  | ok program =>
    refine ⟨fun program' heq => ?_, ?_⟩
    · obtain rfl : program = program' := by simpa using heq
      rfl
    · intro reports heq
      cases heq
  | error errors =>
    refine ⟨?_, fun reports heq => ⟨_, rfl, ?_⟩⟩
    · intro program heq
      cases heq
    · obtain rfl : errors.map GrammarError.report = reports := by simpa using heq
      simp [Function.comp_def, GrammarError.report, GrammarError.relabel, Report.relabel]

/-- Texts that differ in layout are read alike. -/
theorem ofSource_reformat {source source' : String} (h : Source.Reformats source source')
    {lo n lo' n' : Nat} (hlo : lo ≤ n) (hlo' : lo' ≤ n') (hcount : n - lo = n' - lo') :
    (∃ p q, (ofSource n source).1 = .ok p ∧ (ofSource n' source').1 = .ok q ∧
      Stmt.relabelAll (unlined lo) p = Stmt.relabelAll (unlined lo') q) ∨
    ∃ rs rs', (ofSource n source).1 = .error rs ∧ (ofSource n' source').1 = .error rs' ∧
      rs.map (Report.relabel (unlined lo)) = rs'.map (Report.relabel (unlined lo')) := by
  obtain ⟨hok, herror⟩ := ofSource_unlined hlo h.lexical
  obtain ⟨hok', herror'⟩ := ofSource_unlined hlo' h.lexical'
  rw [h.unlined, hcount] at hok herror
  cases hread : (ofSource n source).1 with
  | ok p =>
    cases hread' : (ofSource n' source').1 with
    | ok q =>
      exact .inl ⟨p, q, rfl, rfl, Except.ok.inj ((hok p hread).symm.trans (hok' q hread'))⟩
    | error rs' =>
      obtain ⟨errors, heq, -⟩ := herror' rs' hread'
      cases (hok p hread).symm.trans heq
  | error rs =>
    obtain ⟨errors, heq, hreports⟩ := herror rs hread
    cases hread' : (ofSource n' source').1 with
    | ok q => cases heq.symm.trans (hok' q hread')
    | error rs' =>
      obtain ⟨errors', heq', hreports'⟩ := herror' rs' hread'
      obtain rfl := Except.error.inj (heq.symm.trans heq')
      exact .inr ⟨rs, rs', rfl, rfl, hreports.trans hreports'.symm⟩

end Program

/-- Two worlds with the same output and, but for lines, the same log. -/
structure World.Resembles (w w' : World) : Prop where
  output : w'.output = w.output
  log : w'.log.relabel (unlined 0) = w.log.relabel (unlined 0)

namespace World

variable {w w' : World} {host : Host} {p q : Program}

theorem Resembles.messages (h : w.Resembles w') : w'.log.messages = w.log.messages := by
  have hlog := congrArg Log.messages h.log
  exact hlog

theorem Resembles.hadRuntimeError (h : w.Resembles w') :
    w'.log.hadRuntimeError = w.log.hadRuntimeError := by
  have hlog := congrArg Log.hadRuntimeError h.log
  exact hlog

theorem Resembles.flush (h : w.Resembles w') (host : Host) :
    (w.flush host).Resembles (w'.flush host) := by
  unfold World.flush
  rw [h.output]
  generalize w.output.flush host.sink = flushed
  obtain ⟨output, refusal⟩ := flushed
  cases refusal with
  | none => exact ⟨rfl, h.log⟩
  | some message =>
    refine ⟨rfl, ?_⟩
    simp only [World.report, Log.relabel_add, h.log]

theorem Resembles.reportAll (h : w.Resembles w') {rs rs' : List Report}
    (hrs : rs.map (Report.relabel (unlined 0)) = rs'.map (Report.relabel (unlined 0))) :
    (w.reportAll rs).Resembles (w'.reportAll rs') := by
  have hall (log : Log) (rs : List Report) : (log.addAll rs).relabel (unlined 0) =
      (log.relabel (unlined 0)).addAll (rs.map (Report.relabel (unlined 0))) := by
    induction rs generalizing log with
    | nil => rfl
    | cons r rs ih =>
      change ((log.add r).addAll rs).relabel (unlined 0) = _
      rw [ih, Log.relabel_add]
      rfl
  refine ⟨h.output, ?_⟩
  rw [World.reportAll, World.reportAll, hall, hall, h.log, hrs]

/-- The distances found in a program are those found in it without lines. -/
theorem distances_unlined (w : World) (p : Program) (i : Nat) :
    (w.analyze (Stmt.relabelAll (unlined 0) p)).1.distances[i]? =
      (w.analyze p).1.distances[i]? := by
  have hstart : Analysis.Mirrors (unlined 0) (fun _ => True) [] { distances := w.distances }
      { distances := w.distances } := ⟨rfl, fun _ _ => rfl, rfl⟩
  exact (Stmt.mirrors_analyzeAll Relabeling.injective_unlined .outside .outside p
    hstart).distances i trivial

/-- Programs that differ in lines break the same rules. -/
theorem errors_unlined (w : World) (p : Program) :
    (w.analyze (Stmt.relabelAll (unlined 0) p)).2 =
      (w.analyze p).2.map (StaticError.relabel (unlined 0)) := by
  have hstart : Analysis.Mirrors (unlined 0) (fun _ => True) [] { distances := w.distances }
      { distances := w.distances } := ⟨rfl, fun _ _ => rfl, rfl⟩
  exact (Stmt.mirrors_analyzeAll Relabeling.injective_unlined .outside .outside p hstart).errors

/-- The surroundings in which there are no lines. -/
def unlinedSurroundings (distances : Distances) : Surroundings :=
  { unlined 0 with distances }

/-- A program runs as it does without lines. -/
theorem runProgram_unlined (w : World) (host : Host) (steps : Nat) (p : Program) :
    ∃ result : Option Machine,
      ((w.inside (unlinedSurroundings
        (w.analyze (Stmt.relabelAll (unlined 0) p)).1.distances)).start
          (Stmt.relabelAll (unlined 0) p)).run host steps =
        result.map (Machine.inside (unlinedSurroundings
          (w.analyze (Stmt.relabelAll (unlined 0) p)).1.distances)) ∧
      (w.analyze p).1.runProgram host steps p = result.bind fun m =>
        match m.control with
        | .done _ => some (m.world.flush host)
        | _ => none := by
  let σ := unlinedSurroundings (w.analyze (Stmt.relabelAll (unlined 0) p)).1.distances
  let m := (w.analyze p).1.start p
  have hshares : Machine.SharesRun host m σ :=
    Machine.sharesRun_of_all (fun _ _ => rfl) fun i => distances_unlined w p i
  refine ⟨m.run host steps, ?_, runProgram_eq _ _ _ _⟩
  rw [← Machine.run_inside hshares rfl steps]
  rfl

/-- Programs that differ in lines run alike. -/
theorem runProgram_reformat (w : World) (host : Host) (steps : Nat)
    (h : Stmt.relabelAll (unlined 0) p = Stmt.relabelAll (unlined 0) q) :
    Option.Rel Resembles ((w.analyze p).1.runProgram host steps p)
      ((w.analyze q).1.runProgram host steps q) := by
  obtain ⟨result, hrun, hp⟩ := runProgram_unlined w host steps p
  obtain ⟨result', hrun', hq⟩ := runProgram_unlined w host steps q
  rw [hp, hq]
  rw [h, hrun'] at hrun
  cases result with
  | none =>
    cases result' with
    | none => exact .none
    | some z' => cases hrun
  | some z =>
    cases result' with
    | none => cases hrun
    | some z' =>
      have hinside := Option.some.inj hrun
      have hcontrol := congrArg Machine.control hinside
      have hworld := congrArg Machine.world hinside
      have hresembles : z.world.Resembles z'.world := by
        have houtput := congrArg World.output hworld
        have hlog := congrArg World.log hworld
        simp only [Machine.inside_world, World.inside, unlinedSurroundings, Log.empty_append]
          at houtput hlog
        exact ⟨houtput, hlog⟩
      obtain ⟨control, frames, scope, world⟩ := z
      obtain ⟨control', frames', scope', world'⟩ := z'
      cases control with
      | done c =>
        cases control' with
        | done c' => exact .some (hresembles.flush host)
        | _ => cases hcontrol
      | _ =>
        cases control' with
        | done c' => cases hcontrol
        | _ => exact .none

end World

namespace Session

/-- A text in another layout fails to be prepared just if the text does, with the same reports but
for lines; otherwise the programs differ in lines only. -/
theorem prepare_reformat {source source' : String} (h : Source.Reformats source source')
    (s : Session) :
    (∃ t t', s.prepare source = (none, t) ∧ s.prepare source' = (none, t') ∧
      t.world.Resembles t'.world) ∨
    ∃ p q n n', s.prepare source = (some p, ⟨(s.world.analyze p).1, n⟩) ∧
      s.prepare source' = (some q, ⟨(s.world.analyze q).1, n'⟩) ∧
      Stmt.relabelAll (unlined 0) p = Stmt.relabelAll (unlined 0) q := by
  have hself : s.world.Resembles s.world := ⟨rfl, rfl⟩
  have hread := Program.ofSource_reformat h (Nat.zero_le s.nextId) (Nat.zero_le s.nextId) rfl
  unfold Session.prepare
  generalize Program.ofSource s.nextId source = reading at hread
  generalize Program.ofSource s.nextId source' = reading' at hread
  obtain ⟨reading, n⟩ := reading
  obtain ⟨reading', n'⟩ := reading'
  rcases hread with ⟨p, q, rfl, rfl, hpq⟩ | ⟨rs, rs', rfl, rfl, hrs⟩
  · have herrors : (s.world.analyze p).2.map (StaticError.relabel (unlined 0)) =
        (s.world.analyze q).2.map (StaticError.relabel (unlined 0)) := by
      rw [← World.errors_unlined, hpq, World.errors_unlined]
    have hanalyzed : (s.world.analyze p).1.Resembles (s.world.analyze q).1 := ⟨rfl, rfl⟩
    dsimp only
    cases hp : s.world.analyze p with
    | mk w errors =>
      cases hq : s.world.analyze q with
      | mk w' errors' =>
        rw [hp, hq] at herrors hanalyzed
        cases errors with
        | nil =>
          obtain rfl : errors' = [] := by simpa using herrors.symm
          exact .inr ⟨p, q, n, n', by rw [hp], by rw [hq], hpq⟩
        | cons e errors =>
          have hreports := congrArg (List.map StaticError.report) herrors
          have hrelabel (errors : List StaticError) :
              (errors.map (StaticError.relabel (unlined 0))).map StaticError.report =
                (errors.map StaticError.report).map (Report.relabel (unlined 0)) := by
            simp [Function.comp_def, StaticError.report, StaticError.relabel, Report.relabel]
          rw [hrelabel, hrelabel] at hreports
          cases errors' with
          | nil => cases herrors
          | cons e' errors' => exact .inl ⟨_, _, rfl, rfl, hanalyzed.reportAll hreports⟩
  · exact .inl ⟨_, _, rfl, rfl, hself.reportAll hrs⟩

/-- Layout makes no difference but to lines.  Two texts without lexical errors whose tokens agree
but for their lines are both read or both rejected, and the programs or the reports differ in labels
only.  From any session they run alike: with the same outcome, the same output and the same
messages. -/
theorem layout_irrelevant {source source' : String} (h : Source.Reformats source source') :
    (∀ n n', Program.ReadAlike (Program.ofSource n source).1 (Program.ofSource n' source').1) ∧
    ∀ (s : Session) (host : Host) (steps : Nat),
      Option.Rel (fun r r' => r'.1 = r.1 ∧ r'.2.world.output = r.2.world.output ∧
          r'.2.world.log.messages = r.2.world.log.messages)
        (s.run host steps source) (s.run host steps source') := by
  constructor
  · intro n n'
    have hcount : n - n = n' - n' := by omega
    rcases Program.ofSource_reformat h (Nat.le_refl n) (Nat.le_refl n') hcount with
      ⟨p, q, hp, hq, hpq⟩ | ⟨rs, rs', hrs, hrs', heq⟩
    · rw [hp, hq]
      exact .ok hpq
    · rw [hrs, hrs']
      exact .error heq
  · intro s host steps
    unfold Session.run
    rcases prepare_reformat h s with
      ⟨t, t', ht, ht', hresembles⟩ | ⟨p, q, n, n', hp, hq, hpq⟩
    · rw [ht, ht']
      exact .some ⟨rfl, hresembles.output, hresembles.messages⟩
    · rw [hp, hq]
      have hrun := s.world.runProgram_reformat host steps hpq
      dsimp only
      generalize (s.world.analyze p).1.runProgram host steps p = result,
        (s.world.analyze q).1.runProgram host steps q = result' at hrun
      cases hrun with
      | none => exact .none
      | some hresembles =>
        refine .some ⟨?_, hresembles.output, hresembles.messages⟩
        simp [Session.outcome, hresembles.hadRuntimeError]

/-- The fault on line 1 is reported on line 5 of the other text, with the same message. -/
theorem layout_irrelevant_lines :
    let host : Host := ⟨fun _ => .ok ⟨0⟩, .unlimited⟩
    Source.Reformats "print 1;print nil.x;" "print 1 // one\n;\nprint\n  nil\n.x;" ∧
    ∃ r r', Session.initial.run host 30 "print 1;print nil.x;" = some r ∧
      Session.initial.run host 30 "print 1 // one\n;\nprint\n  nil\n.x;" = some r' ∧
      r.2.world.log.texts ≠ r'.2.world.log.texts ∧ r'.1 = .runtimeError ∧
      r'.2.world.output.text = "1\n" ∧ r'.2.world.log.messages = r.2.world.log.messages := by
  intro host
  have h : Source.Reformats "print 1;print nil.x;" "print 1 // one\n;\nprint\n  nil\n.x;" :=
    ⟨by decide +kernel, by decide +kernel, by decide +kernel⟩
  have hrel := (layout_irrelevant h).2 .initial host 30
  have hfirst : (Session.initial.run host 30 "print 1;print nil.x;").map
      (fun r => (r.1, r.2.world.output.text, r.2.world.log.texts)) = some (.runtimeError, "1\n",
        #["At line 1.\n\tRuntime Error: Only instances have properties."]) := by decide +kernel
  have hsecond : (Session.initial.run host 30 "print 1 // one\n;\nprint\n  nil\n.x;").map
      (fun r => r.2.world.log.texts) =
        some #["At line 5.\n\tRuntime Error: Only instances have properties."] := by decide +kernel
  obtain ⟨r, hr, hvalues⟩ := Option.map_eq_some_iff.1 hfirst
  obtain ⟨r', hr', htexts⟩ := Option.map_eq_some_iff.1 hsecond
  rw [hr, hr'] at hrel
  cases hrel with
  | some hsame =>
    obtain ⟨houtcome, houtput, hmessages⟩ := hsame
    simp only [Prod.mk.injEq] at hvalues
    refine ⟨h, r, r', hr, hr', ?_, houtcome.trans hvalues.1, ?_, hmessages⟩
    · rw [hvalues.2.2, htexts]
      decide
    · rw [houtput]
      exact hvalues.2.1

end Session

end ClassScript
