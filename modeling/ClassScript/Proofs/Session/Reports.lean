import ClassScript.Proofs.Session.Record

/-! # What a run reports

Reports are added to the log and nothing else happens to it.  A text with errors has static reports
only, a program that is executed has runtime reports only, and which of the two it is does not
depend on the session.
-/
namespace ClassScript

namespace Log

theorem hadError_addAll (log : Log) (rs : List Report) :
    (log.addAll rs).hadError = (log.hadError || rs.any fun r => !r.isRuntime) := by
  induction rs generalizing log with
  | nil => simp [addAll]
  | cons r rs ih =>
    change ((log.add r).addAll rs).hadError = _
    rw [ih]
    simp [add, Bool.or_assoc]

/-- The second log is the first one with more reports of one kind. -/
def Adds (kind : Report → Bool) (log log' : Log) : Prop :=
  ∃ rs, (∀ r ∈ rs, kind r = true) ∧ log' = log.addAll rs

variable {kind : Report → Bool} {log log' log'' : Log}

theorem Adds.refl (kind : Report → Bool) (log : Log) : Adds kind log log := ⟨[], by simp, rfl⟩

theorem Adds.trans (h : Adds kind log log') (h' : Adds kind log' log'') : Adds kind log log'' := by
  obtain ⟨rs, hrs, rfl⟩ := h
  obtain ⟨rs', hrs', rfl⟩ := h'
  exact ⟨rs ++ rs', List.forall_mem_append.2 ⟨hrs, hrs'⟩, List.foldl_append.symm⟩

theorem Adds.add (log : Log) {r : Report} (hr : kind r = true) : Adds kind log (log.add r) :=
  ⟨[r], by simpa using hr, rfl⟩

theorem Adds.reports (h : Adds kind log log') :
    log.reports.toList <+: log'.reports.toList := by
  obtain ⟨rs, -, rfl⟩ := h
  rw [toList_addAll]
  exact List.prefix_append _ _

/-- Runtime reports leave the flag for static errors alone. -/
theorem Adds.hadError (h : Adds Report.isRuntime log log') : log'.hadError = log.hadError := by
  obtain ⟨rs, hrs, rfl⟩ := h
  have hnone : (rs.any fun r => !r.isRuntime) = false := by simpa using hrs
  rw [hadError_addAll, hnone, Bool.or_false]

theorem Adds.hadRuntimeError (h : Adds Report.isStatic log log') :
    log'.hadRuntimeError = log.hadRuntimeError := by
  obtain ⟨rs, hrs, rfl⟩ := h
  have hnone : rs.any Report.isRuntime = false := by
    simpa using fun r hr => Report.isRuntime_of_isStatic (hrs r hr)
  rw [hadRuntimeError_addAll, hnone, Bool.or_false]

end Log

theorem Fault.isRuntime_report (f : Fault) : f.report.isRuntime = true := by
  cases f <;> rfl

theorem Machine.Sound.log_advance {R : Recorded} {m : Machine} (h : m.Sound R) (host : Host)
    (n : Nat) : Log.Adds Report.isRuntime m.world.log (m.advance host n).world.log := by
  have hkept := advance_keeps host
    (P := fun m' => m'.Sound R ∧ Log.Adds Report.isRuntime m.world.log m'.world.log)
    (fun m' hm' => ?_) ⟨h, .refl _ _⟩ n
  · exact hkept.2
  · obtain ⟨hsound, hadds⟩ := hm'
    refine ⟨hsound.step, ?_⟩
    rcases hsound.regular.step_cases host with ⟨f, rest, outer, fs, -, -, hstep⟩ | ⟨honward, -⟩
    · rw [hstep]
      exact hadds.trans (.add _ f.isRuntime_report)
    · rw [honward.log]
      exact hadds

theorem World.log_flush (w : World) (host : Host) :
    Log.Adds Report.isRuntime w.log (w.flush host).log := by
  unfold World.flush
  split
  · exact .refl _ _
  · exact .add _ rfl

namespace Session

variable {s s' : Session} {host : Host} {steps : Nat} {source : String} {outcome : Outcome}
  {m : Machine}

theorem log_visits (hs : s.Sound) (hm : s.Visits host source m) :
    Log.Adds Report.isRuntime s.world.log m.world.log := by
  obtain ⟨program, s₁, n, hprepare, rfl⟩ := hm
  obtain ⟨hsound, hbound⟩ := hs.prepare source
  obtain ⟨-, hworld, -⟩ := prepare_some hprepare
  rw [hprepare] at hsound hbound
  have hlog : s.world.log = (s₁.world.start program).world.log := by
    rw [World.start, hworld]
    rfl
  rw [hlog]
  exact (hsound.world.start (hbound program rfl)).log_advance host n

theorem fst_prepare (s : Session) (source : String) :
    (s.prepare source).1 = (Program.ofSource s.nextId source).1.toOption.filter fun program =>
      (s.world.analyze program).2.isEmpty := by
  unfold Session.prepare
  generalize Program.ofSource s.nextId source = reading
  obtain ⟨reading, nextId⟩ := reading
  cases reading with
  | error reports => rfl
  | ok program =>
    dsimp only [Except.toOption]
    rw [Option.filter_some]
    generalize s.world.analyze program = analyzed
    obtain ⟨world, errors⟩ := analyzed
    cases errors with
    | nil => rfl
    | cons e errors => rfl

/-- A text that is not admitted has errors, and these are reported. -/
theorem fails_of_none (h : s.prepare source = (none, s')) :
    s.Fails source ∧ Log.Adds Report.isStatic s.world.log s'.world.log := by
  unfold Session.prepare at h
  generalize hread : Program.ofSource s.nextId source = reading at h
  obtain ⟨reading, nextId⟩ := reading
  cases reading with
  | error reports =>
    obtain ⟨hfails, hstatic⟩ := ofSource_reports (congrArg Prod.fst hread)
    obtain rfl : Session.mk (s.world.reportAll reports) nextId = s' := (Prod.mk.inj h).2
    exact ⟨or_assoc.1 (.inl hfails), reports, hstatic, rfl⟩
  | ok program =>
    dsimp only at h
    generalize hanalyze : s.world.analyze program = analyzed at h
    obtain ⟨world, errors⟩ := analyzed
    cases errors with
    | nil => cases (Prod.mk.inj h).1
    | cons e errors =>
      obtain rfl := (Prod.mk.inj h).2
      have hlog : s.world.log = world.log := congrArg (fun analyzed => analyzed.1.log) hanalyze
      refine ⟨.inr (.inr ⟨program, nextId, hread, by simp [hanalyze]⟩),
        (e :: errors).map StaticError.report, fun r hr => ?_, ?_⟩
      · obtain ⟨e', -, rfl⟩ := List.mem_map.1 hr
        rfl
      · rw [hlog]
        rfl

theorem fails_iff : s.Fails source ↔ (s.prepare source).1 = none := by
  constructor
  · intro h
    obtain ⟨s', hs'⟩ := h.refuses
    rw [hs'.prepare]
  · intro h
    exact (fails_of_none (Prod.ext h rfl)).1

/-- Whether a text has errors does not depend on the session. -/
theorem fails_initial (s : Session) (source : String) :
    s.Fails source ↔ Session.initial.Fails source := by
  let ρ := Relabeling.shift 0 s.nextId
  have hline := Relabeling.keepsLines_shift 0 s.nextId
  have hstart : ρ.number 0 = s.nextId := by
    rw [Relabeling.shift_of_ge (Nat.le_refl 0), Nat.zero_add]
  have hread := Program.ofSource_relabel (Relabeling.countsFrom_shift 0 s.nextId) hline source
  rw [hstart] at hread
  have hnext : Session.initial.nextId = 0 := rfl
  rw [fails_iff, fails_iff, fst_prepare, fst_prepare, hread, hnext]
  cases (Program.ofSource 0 source).1 with
  | error reports => exact Iff.rfl
  | ok program =>
    have herrors := World.errors_relabel hline (Relabeling.injective_shift 0 s.nextId)
      Session.initial.world s.world program
    simp [Except.map, Except.toOption, Option.filter_eq_none_iff, herrors]

/-- The reports of a run, and its outcome. -/
theorem Reachable.log_run (hs : s.Reachable)
    (hrun : s.run host steps source = some (outcome, s')) :
    (s.Fails source ∧ outcome = .staticError ∧
      Log.Adds Report.isStatic s.world.log s'.world.log) ∨
    (¬s.Fails source ∧ outcome = s'.outcome ∧
      Log.Adds Report.isRuntime s.world.log s'.world.log) := by
  rcases run_cases hrun with ⟨hprepare, houtcome⟩ | ⟨program, s₁, m, hprepare, hm, rfl, houtcome⟩
  · obtain ⟨hfails, hadds⟩ := fails_of_none hprepare
    exact .inl ⟨hfails, houtcome, hadds⟩
  · have hfails : ¬s.Fails source := by
      rw [fails_iff, hprepare]
      simp
    have hvisits : s.Visits host source m :=
      ⟨program, s₁, steps, hprepare, (Machine.advance_of_run hm).symm⟩
    have hadds := log_visits hs.sound hvisits
    exact .inr ⟨hfails, houtcome, hadds.trans (m.world.log_flush host)⟩

end Session

end ClassScript
