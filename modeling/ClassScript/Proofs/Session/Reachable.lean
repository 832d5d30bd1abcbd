import ClassScript.Proofs.Evaluation.Preservation
import ClassScript.Proofs.Scoping.Soundness
import ClassScript.Proofs.Source.Spelling
import ClassScript.Session

/-! # Reachable sessions

The sessions that come about by running one source text after another, whatever happens in the
runs, and the machines that they go through.  All of them are in order.
-/
namespace ClassScript

open Store (Fits)

namespace Report

/-- Lexical, grammar and static errors. -/
def isStatic : Report → Bool
  | lexical .. | grammar .. | static .. => true
  | runtime .. | io _ | encoding _ => false

theorem isRuntime_of_isStatic {r : Report} (h : r.isStatic = true) : r.isRuntime = false := by
  cases r <;> first | rfl | cases h

theorem isStatic_of_isRuntime {r : Report} (h : r.isRuntime = true) : r.isStatic = false := by
  cases r <;> first | rfl | cases h

end Report

namespace Machine

variable {host : Host} {m m' : Machine}

/-- A run that ends is a number of steps. -/
theorem advance_of_run {n : Nat} (h : m.run host n = some m') : m.advance host n = m' := by
  induction n generalizing m with
  | zero => cases h
  | succ n ih =>
    rw [Machine.run] at h
    rw [Machine.advance]
    split at h
    next hfinal =>
      rw [if_pos hfinal]
      simpa using h
    next hfinal =>
      rw [if_neg hfinal]
      exact ih h

end Machine

namespace World

variable {R : Recorded} {w : World}

theorem closure_initial (id : Nat) : World.initial.store.closure id = default := by
  simp [World.initial, World.supply, Store.define, Store.addNative, Store.addScope, Store.closure]

theorem classOf_initial (id : Nat) : World.initial.store.classOf id = default := by
  simp [World.initial, World.supply, Store.define, Store.addNative, Store.addScope, Store.classOf]

/-- Nothing is bound at first but the clock. -/
theorem sound_initial (hR : ∀ id d, R id d → d = none) : World.initial.Sound R where
  recorded id d hd := by
    rw [hR id d hd]
    simp [World.initial, World.supply]
  store := by
    refine ⟨fun id => ?_, fun id name c hc => ?_, fun id => ?_, ?_⟩
    · rw [closure_initial]
      exact ⟨.function, {}, by simp, ⟨List.nodup_nil, by simp, trivial⟩, rfl,
        fun hinit => nomatch hinit⟩
    · rw [classOf_initial] at hc
      cases hc
    · cases id with
      | zero => rfl
      | succ id => rfl
    · decide
  log r hr := by
    simp [World.initial, World.supply] at hr
  rendered := .empty

theorem Sound.reportAll {rs : List Report} (h : w.Sound R) (hrs : ∀ r ∈ rs, r.Possible) :
    (w.reportAll rs).Sound R := by
  induction rs generalizing w with
  | nil => exact h
  | cons r rs ih =>
    obtain ⟨hr, hrs⟩ := List.forall_mem_cons.1 hrs
    exact ih (h.report hr) hrs

theorem Sound.flush (h : w.Sound R) (host : Host) : (w.flush host).Sound R := by
  unfold World.flush
  generalize w.output.flush host.sink = flushed
  obtain ⟨output, refusal⟩ := flushed
  have hflushed : World.Sound R { w with output } := ⟨h.recorded, h.store, h.log, h.rendered⟩
  cases refusal with
  | none => exact hflushed
  | some message => exact hflushed.report fun _ _ heq => nomatch heq

/-- More has been recorded for references that were not known. -/
theorem Sound.record {R' : Recorded} {distances : Distances} (h : w.Sound R)
    (hR : ∀ id, w.store.Bears id → ∀ d, R id d → R' id d)
    (hdistances : ∀ id d, R' id d → distances[id]? = d) :
    World.Sound R' { w with distances } :=
  ⟨hdistances, h.store.mono hR id, h.log, h.rendered⟩

/-- A bound program can be started. -/
theorem Sound.start {program : Program} (h : w.Sound R)
    (hprogram : Stmt.BoundAll R .outside {} program) : (w.start program).Sound R := by
  have hfits : Fits w.Clean w.store (Context.scopes {}) globalScope := rfl
  have hat : (w.start program).At R .done .outside {} :=
    ⟨h, rfl, .sequence hprogram hfits (.nil rfl)⟩
  exact .done rfl hat trivial

end World

namespace Machine

theorem Sound.world {R : Recorded} {m : Machine} (h : m.Sound R) : m.world.Sound R := by
  cases h with
  | eval _ hat _ | value _ hat | text _ hat | done _ hat _ => exact hat.world
  | exec _ hworld _ _ _ | fault _ hworld _ _ _ => exact hworld

end Machine

namespace Session

/-- Sessions that come about; the surroundings may change between two runs. -/
inductive Reachable : Session → Prop where
  | initial : Reachable .initial
  | run {s s' : Session} {host : Host} {steps : Nat} {source : String} {outcome : Outcome}
      (hs : Reachable s) (hrun : s.run host steps source = some (outcome, s')) : Reachable s'
  | reset {s : Session} (hs : Reachable s) : Reachable s.reset

/-- The machine comes about while the session runs a source text. -/
def Visits (s : Session) (host : Host) (source : String) (m : Machine) : Prop :=
  ∃ program s' n, s.prepare source = (some program, s') ∧
    m = (s'.world.start program).advance host n

/-- What is recorded for the references that have been read so far. -/
def recorded (s : Session) : Recorded :=
  fun id d => id < s.nextId ∧ s.world.distances[id]? = d

/-- The session is in order: its world is, and nothing is recorded for references to come. -/
structure Sound (s : Session) : Prop where
  world : s.world.Sound s.recorded
  unread : ∀ id, s.nextId ≤ id → s.world.distances[id]? = none

theorem sound_initial : Session.initial.Sound where
  world := World.sound_initial fun id _ hd => absurd hd.1 (Nat.not_lt_zero id)
  unread id _ := by simp [Session.initial, World.initial, World.supply]

theorem Sound.reset {s : Session} (h : s.Sound) : s.reset.Sound where
  world := ⟨h.world.recorded, h.world.store, h.world.log, ⟨h.world.rendered.1, h.world.rendered.2⟩⟩
  unread := h.unread

/-- Only what happens at run time has runtime reports. -/
theorem possible_of_static {r : Report} (h : r.isRuntime = false) : r.Possible := by
  intro line message hr
  subst hr
  cases h

theorem isStatic_lexicalReports (source : String) :
    ∀ r ∈ Source.lexicalReports source, r.isStatic = true := by
  intro r hr
  obtain ⟨item, -, hitem⟩ := List.mem_filterMap.1 hr
  cases item with
  | token t => cases hitem
  | error line cause =>
    obtain rfl : Report.lexical line cause.message = r := by
      simpa [Source.Item.report?] using hitem
    rfl

/-- A text that is no program has lexical or grammar errors, and these are reported. -/
theorem ofSource_reports {nextId : Nat} {source : String} {reports : List Report}
    (h : (Program.ofSource nextId source).1 = .error reports) :
    (Source.lexicalReports source ≠ [] ∨
      ∃ errors, (Program.ofTokens nextId (Source.tokens source)).outcome = .error errors) ∧
    ∀ r ∈ reports, r.isStatic = true := by
  have hlexical := isStatic_lexicalReports source
  unfold Program.ofSource at h
  dsimp only at h
  split at h
  next program _ =>
    split at h
    next => cases h
    next hne =>
      obtain rfl : Source.lexicalReports source = reports := by simpa using h
      exact ⟨.inl (by simpa using hne), hlexical⟩
  next errors herrors =>
    obtain rfl : Source.lexicalReports source ++ errors.map GrammarError.report = reports := by
      simpa using h
    refine ⟨.inr ⟨errors, herrors⟩, List.forall_mem_append.2 ⟨hlexical, fun r hr => ?_⟩⟩
    obtain ⟨e, -, rfl⟩ := List.mem_map.1 hr
    rfl

theorem static_ofSource (nextId : Nat) (source : String) (reports : List Report)
    (h : (Program.ofSource nextId source).1 = .error reports) :
    ∀ r ∈ reports, r.isRuntime = false :=
  fun r hr => Report.isRuntime_of_isStatic ((ofSource_reports h).2 r hr)

/-- What the analysis of a program read next does to a session in order. -/
theorem Sound.analyze {s : Session} (h : s.Sound) {program : Program} {nextId : Nat}
    (hle : s.nextId ≤ nextId) (hshape : Stmt.ShapedAll program)
    (hids : Numbered s.nextId (Stmt.idsAll program) nextId) :
    Sound ⟨(s.world.analyze program).1, nextId⟩ := by
  have hmoves := Stmt.moves_analyzeAll .outside .outside program
    { distances := s.world.distances } hshape
  refine ⟨h.world.record (fun id _ d hd => ?_) fun id d hd => hd.2, fun id hid => ?_⟩
  · obtain ⟨hlt, hd⟩ := hd
    have hnot : id ∉ Stmt.idsAll program := fun hmem =>
      absurd (hids.bounds id hmem).1 (Nat.not_le.2 hlt)
    exact ⟨Nat.lt_of_lt_of_le hlt hle, (hmoves.others id hnot).trans hd⟩
  · have hnot : id ∉ Stmt.idsAll program := fun hmem =>
      absurd (hids.bounds id hmem).2 (Nat.not_lt.2 hid)
    exact (hmoves.others id hnot).trans (h.unread id (Nat.le_trans hle hid))

/-- A program that passes the analysis is bound. -/
theorem Sound.bound {s : Session} (h : s.Sound) {program : Program} {nextId : Nat}
    (hshape : Stmt.ShapedAll program) (hids : Numbered s.nextId (Stmt.idsAll program) nextId)
    (herrors : (s.world.analyze program).2 = []) :
    Stmt.BoundAll (recorded ⟨(s.world.analyze program).1, nextId⟩) .outside {} program := by
  have hfinds : Finds (recorded ⟨(s.world.analyze program).1, nextId⟩)
      { distances := s.world.distances } (Stmt.idsAll program)
      (program.analyze s.world.distances) :=
    { nodup := hids.nodup
      fresh := fun i hi => h.unread i (hids.bounds i hi).1
      quiet := by simpa [World.analyze] using herrors
      recorded := fun i hi => ⟨(hids.bounds i hi).2, rfl⟩ }
  exact Stmt.boundAll_of_finds program _ hshape rfl trivial .nil hfinds

theorem Sound.reportAll {s : Session} (h : s.Sound) {rs : List Report}
    (hrs : ∀ r ∈ rs, r.isRuntime = false) : Sound ⟨s.world.reportAll rs, s.nextId⟩ :=
  ⟨h.world.reportAll fun r hr => possible_of_static (hrs r hr), h.unread⟩

/-- Preparing a source text leaves the session in order, and a program that passes is bound. -/
theorem Sound.prepare {s : Session} (h : s.Sound) (source : String) :
    (s.prepare source).2.Sound ∧ ∀ program, (s.prepare source).1 = some program →
      Stmt.BoundAll (s.prepare source).2.recorded .outside {} program := by
  obtain ⟨hle, hspec⟩ := Program.ofSource_spec s.nextId source
  have hstatic := static_ofSource s.nextId source
  unfold Session.prepare
  generalize Program.ofSource s.nextId source = reading at hle hspec hstatic
  obtain ⟨reading, nextId⟩ := reading
  cases reading with
  | error reports =>
    have hsound : Sound ⟨s.world, nextId⟩ := by
      refine ⟨h.world.record (fun id _ d hd => ?_) fun id d hd => hd.2, fun id hid => ?_⟩
      · exact ⟨Nat.lt_of_lt_of_le hd.1 hle, hd.2⟩
      · exact h.unread id (Nat.le_trans hle hid)
    exact ⟨hsound.reportAll (hstatic reports rfl), by simp⟩
  | ok program =>
    obtain ⟨hshape, hids⟩ := hspec program rfl
    have hsound := h.analyze hle hshape hids
    have hbound := h.bound hshape hids
    dsimp only
    split
    next world heq =>
      rw [heq] at hsound hbound
      refine ⟨hsound, fun program' hprogram => ?_⟩
      obtain rfl : program = program' := by simpa using hprogram
      exact hbound rfl
    next world errors _ heq =>
      rw [heq] at hsound
      refine ⟨hsound.reportAll fun r hr => ?_, by simp⟩
      obtain ⟨e, -, rfl⟩ := List.mem_map.1 hr
      rfl

/-- A text that passes has been read and analysed without errors. -/
theorem prepare_read {s s' : Session} {source : String} {program : Program}
    (h : s.prepare source = (some program, s')) :
    Program.ofSource s.nextId source = (.ok program, s'.nextId) ∧
      s'.world = (s.world.analyze program).1 ∧ (s.world.analyze program).2 = [] := by
  unfold Session.prepare at h
  generalize Program.ofSource s.nextId source = reading at h
  obtain ⟨reading, nextId⟩ := reading
  cases reading with
  | error reports => simp at h
  | ok read =>
    dsimp only at h
    split at h
    next world heq =>
      obtain ⟨rfl, rfl⟩ : read = program ∧ Session.mk world nextId = s' := by simpa using h
      exact ⟨rfl, by rw [heq], by rw [heq]⟩
    next => simp at h

/-- A text that passes is a program of the right shape. -/
theorem prepare_some {s s' : Session} {source : String} {program : Program}
    (h : s.prepare source = (some program, s')) :
    Stmt.ShapedAll program ∧ s'.world = (s.world.analyze program).1 ∧
      (s.world.analyze program).2 = [] := by
  obtain ⟨hread, hworld, herrors⟩ := prepare_read h
  obtain ⟨hshape, -⟩ := (Program.ofSource_spec s.nextId source).2 program (by rw [hread])
  exact ⟨hshape, hworld, herrors⟩

/-- A text that is read and analysed without errors passes. -/
theorem prepare_of_quiet {s : Session} {source : String} {program : Program} {nextId : Nat}
    (hread : Program.ofSource s.nextId source = (.ok program, nextId))
    (hquiet : (s.world.analyze program).2 = []) :
    s.prepare source = (some program, ⟨(s.world.analyze program).1, nextId⟩) := by
  unfold Session.prepare
  rw [hread]
  dsimp only
  generalize s.world.analyze program = analyzed at hquiet ⊢
  obtain ⟨world, errors⟩ := analyzed
  obtain rfl : errors = [] := hquiet
  rfl

/-- The machines that a session in order goes through are in order. -/
theorem Sound.visits {s : Session} (h : s.Sound) {host : Host} {source : String} {m : Machine}
    (hm : s.Visits host source m) : ∃ R, m.Sound R := by
  obtain ⟨program, s', n, hprepare, rfl⟩ := hm
  obtain ⟨hsound, hbound⟩ := h.prepare source
  rw [hprepare] at hsound hbound
  exact ⟨_, (hsound.world.start (hbound program rfl)).advance host n⟩

/-- A program leaves the session in order in which it is run. -/
theorem Sound.runProgram {s : Session} (h : s.Sound) {program : Program}
    (hprogram : Stmt.BoundAll s.recorded .outside {} program) {host : Host} {steps : Nat}
    {world : World} (hrun : s.world.runProgram host steps program = some world) :
    Sound { s with world } := by
  obtain ⟨⟨c, w⟩, hexecute, rfl⟩ := Option.map_eq_some_iff.1 hrun
  obtain ⟨m, hm, hdone⟩ := Option.bind_eq_some_iff.1 hexecute
  have hw : m.world = w := by
    split at hdone <;> cases hdone
    rfl
  -- the run changes no distance: it is in order for all distances known when it starts
  have hall : (w.flush host).Sound fun id d => s.world.distances[id]? = d := by
    have hall : s.world.Sound fun id d => s.world.distances[id]? = d :=
      h.world.record (fun _ _ _ hd => hd.2) fun _ _ hd => hd
    have hstart := hall.start (Stmt.BoundAll.mono program (fun _ _ _ hd => hd.2) hprogram)
    have hsound := (hstart.advance host steps).world
    rw [World.start, Machine.advance_of_run hm, hw] at hsound
    exact hsound.flush host
  have hsound := ((h.world.start hprogram).advance host steps).world
  rw [World.start, Machine.advance_of_run hm, hw] at hsound
  refine ⟨(hsound.flush host).record (fun id _ d hd => ?_) fun _ _ hd => hd.2, fun id hid => ?_⟩
  · exact ⟨hd.1, (hall.recorded id _ rfl).trans hd.2⟩
  · exact (hall.recorded id _ rfl).trans (h.unread id hid)

theorem Sound.run {s s' : Session} (h : s.Sound) {host : Host} {steps : Nat} {source : String}
    {outcome : Outcome} (hrun : s.run host steps source = some (outcome, s')) : s'.Sound := by
  obtain ⟨hsound, hbound⟩ := h.prepare source
  unfold Session.run at hrun
  split at hrun
  next s₁ heq =>
    rw [heq] at hsound
    obtain ⟨-, rfl⟩ : outcome = .staticError ∧ s₁ = s' := by simpa [eq_comm] using hrun
    exact hsound
  next program s₁ heq =>
    rw [heq] at hsound hbound
    obtain ⟨world, hworld, heq⟩ := Option.map_eq_some_iff.1 hrun
    obtain ⟨-, rfl⟩ := Prod.mk.inj heq
    exact hsound.runProgram (hbound program rfl) hworld

theorem Reachable.sound {s : Session} (h : s.Reachable) : s.Sound := by
  induction h with
  | initial => exact sound_initial
  | run _ hrun ih => exact ih.run hrun
  | reset _ ih => exact ih.reset

end Session

end ClassScript
