import ClassScript.Proofs.Session.Reports

/-! # What outcomes and flags tell

A flag of the log is set exactly if a report of its kind has been made since the last reset, and the
outcome of a run tells whether its text has errors and, if it has none, what the flag for runtime
errors says.
-/
namespace ClassScript

namespace Log

/-- The reports behind the first `n`. -/
def since (log : Log) (n : Nat) : List Report := log.reports.toList.drop n

/-- The flags tell which kinds of reports were made behind the first `n`. -/
structure Truthful (log : Log) (n : Nat) : Prop where
  past : n ≤ log.reports.size
  hadError : log.hadError = (log.since n).any Report.isStatic
  hadRuntimeError : log.hadRuntimeError = (log.since n).any Report.isRuntime

variable {log log' log'' : Log} {n : Nat} {kind : Report → Bool}

theorem since_addAll (hn : n ≤ log.reports.size) (rs : List Report) :
    (log.addAll rs).since n = log.since n ++ rs := by
  rw [since, since, toList_addAll, List.drop_append_of_le_length (by simpa using hn)]

theorem Truthful.adds (h : log.Truthful n)
    (hkind : ∀ r, kind r = true → r.isStatic = !r.isRuntime) (hadds : Adds kind log log') :
    log'.Truthful n := by
  obtain ⟨rs, hrs, rfl⟩ := hadds
  have hstatic : rs.any Report.isStatic = rs.any fun r => !r.isRuntime := by
    rw [Bool.eq_iff_iff, List.any_eq_true, List.any_eq_true]
    exact exists_congr fun r => and_congr_right fun hr => by rw [hkind r (hrs r hr)]
  refine ⟨?_, ?_, ?_⟩
  · have hlength := congrArg List.length (log.toList_addAll rs)
    rw [List.length_append, Array.length_toList, Array.length_toList] at hlength
    have hpast := h.past
    omega
  · rw [hadError_addAll, since_addAll h.past, List.any_append, h.hadError, hstatic]
  · rw [hadRuntimeError_addAll, since_addAll h.past, List.any_append, h.hadRuntimeError]

theorem truthful_reset (log : Log) : log.reset.Truthful log.reports.size := by
  have hnone : log.reset.since log.reports.size = [] := List.drop_of_length_le (Nat.le_refl _)
  refine ⟨Nat.le_refl _, ?_, ?_⟩
  · rw [hnone]
    rfl
  · rw [hnone]
    rfl

/-- Later texts and messages come behind the earlier ones. -/
structure Continues (log log' : Log) : Prop where
  texts : log.texts.toList <+: log'.texts.toList
  messages : log.messages.toList <+: log'.messages.toList

theorem Continues.refl (log : Log) : log.Continues log := ⟨List.prefix_refl _, List.prefix_refl _⟩

theorem Continues.trans (h : log.Continues log') (h' : log'.Continues log'') :
    log.Continues log'' :=
  ⟨h.texts.trans h'.texts, h.messages.trans h'.messages⟩

theorem continues_add (log : Log) (r : Report) : log.Continues (log.add r) := by
  constructor
  · rw [add, Array.toList_push]
    exact List.prefix_append _ _
  · rw [add, Array.toList_push]
    exact List.prefix_append _ _

theorem Adds.continues (h : Adds kind log log') : log.Continues log' := by
  obtain ⟨rs, -, rfl⟩ := h
  induction rs generalizing log with
  | nil => exact .refl log
  | cons r rs ih => exact (continues_add log r).trans ih

end Log

namespace Session

variable {s s' : Session} {n : Nat}

/-- A session that comes about, with the number of reports at its last reset. -/
inductive Since : Session → Nat → Prop where
  | initial : Since .initial 0
  | run {s s' : Session} {n : Nat} {host : Host} {steps : Nat} {source : String}
      {outcome : Outcome} (hs : Since s n)
      (hrun : s.run host steps source = some (outcome, s')) : Since s' n
  | reset {s : Session} {n : Nat} (hs : Since s n) : Since s.reset s.world.log.reports.size

theorem Reachable.since (h : s.Reachable) : ∃ n, s.Since n := by
  induction h with
  | initial => exact ⟨0, .initial⟩
  | run _ hrun ih =>
    obtain ⟨n, hn⟩ := ih
    exact ⟨n, .run hn hrun⟩
  | reset _ ih =>
    obtain ⟨n, hn⟩ := ih
    exact ⟨_, .reset hn⟩

theorem Since.reachable (h : s.Since n) : s.Reachable := by
  induction h with
  | initial => exact .initial
  | run _ hrun ih => exact .run ih hrun
  | reset _ ih => exact .reset ih

/-- The flags are truthful from one reset to the next. -/
theorem Since.truthful (h : s.Since n) : s.world.log.Truthful n := by
  induction h with
  | initial => exact ⟨Nat.le_refl 0, rfl, rfl⟩
  | run hs hrun ih =>
    rcases hs.reachable.log_run hrun with ⟨-, -, hadds⟩ | ⟨-, -, hadds⟩
    · exact ih.adds (fun r hr => by simp [hr, Report.isRuntime_of_isStatic hr]) hadds
    · exact ih.adds (fun r hr => by simp [hr, Report.isStatic_of_isRuntime hr]) hadds
  | @reset s _ _ _ => exact s.world.log.truthful_reset

theorem Reachable.continues_run (hs : s.Reachable) {host : Host} {steps : Nat} {source : String}
    {outcome : Outcome} (hrun : s.run host steps source = some (outcome, s')) :
    s.world.log.Continues s'.world.log := by
  rcases hs.log_run hrun with ⟨-, -, hadds⟩ | ⟨-, -, hadds⟩
  · exact hadds.continues
  · exact hadds.continues

/-- Outcomes and flags tell the truth.  In every session that comes about, each flag tells whether a
report of its kind has been made since the last reset.  A run has the outcome of a static error
exactly if its text has lexical, grammar or static errors, which does not depend on the session;
otherwise its outcome tells whether there has been a runtime report since the last reset.  Execution
never sets the flag for static errors, and a run that fails before it begins never sets the one for
runtime errors.  Texts and messages only become more, and the ones of the same number are those of
the same report. -/
theorem flags_truthful (hs : s.Reachable) :
    (∃ n, s.Since n) ∧
    (∀ n, s.Since n → s.world.log.Truthful n) ∧
    (∀ source, (s.Fails source ↔ Session.initial.Fails source) ∧
      (s.Fails source → ∀ host steps, ∃ s', s.run host steps source = some (.staticError, s'))) ∧
    (∀ host steps source outcome s', s.run host steps source = some (outcome, s') →
      (outcome = .staticError ↔ s.Fails source) ∧
      (s.Fails source → s'.world.log.hadRuntimeError = s.world.log.hadRuntimeError) ∧
      (¬s.Fails source → s'.world.log.hadError = s.world.log.hadError) ∧
      ∀ n, s.Since n → s'.Since n ∧ (¬s.Fails source →
        outcome =
          if (s'.world.log.since n).any Report.isRuntime then .runtimeError else .ok)) ∧
    (∀ host source m, s.Visits host source m → m.world.log.hadError = s.world.log.hadError) ∧
    ∀ requests outcomes s', s.answerAll requests = some (outcomes, s') →
      s.world.log.Continues s'.world.log ∧
      s'.world.log.texts.size = s'.world.log.messages.size ∧
      ∀ i : Nat, s'.world.log.texts[i]? = s'.world.log.reports[i]?.map Report.text ∧
        s'.world.log.messages[i]? = s'.world.log.reports[i]?.map Report.message := by
  refine ⟨hs.since, fun n hn => hn.truthful, fun source => ⟨fails_initial s source, ?_⟩, ?_, ?_, ?_⟩
  · intro hfails host steps
    obtain ⟨s', hrefuses⟩ := hfails.refuses
    exact ⟨s', hrefuses.run host steps⟩
  · intro host steps source outcome s' hrun
    rcases hs.log_run hrun with ⟨hfails, houtcome, hadds⟩ | ⟨hfails, houtcome, hadds⟩
    · exact ⟨by simp [hfails, houtcome], fun _ => hadds.hadRuntimeError, fun h => absurd hfails h,
        fun n hn => ⟨.run hn hrun, fun h => absurd hfails h⟩⟩
    · refine ⟨?_, fun h => absurd h hfails, fun _ => hadds.hadError, fun n hn => ?_⟩
      · rw [houtcome, Session.outcome]
        split <;> simp [hfails]
      · have hsince : s'.Since n := .run hn hrun
        refine ⟨hsince, fun _ => ?_⟩
        rw [houtcome, Session.outcome, hsince.truthful.hadRuntimeError]
  · intro host source m hm
    exact (log_visits hs.sound hm).hadError
  · intro requests outcomes s' hanswer
    obtain ⟨hs', hcontinues⟩ := answerAll_keeps
      (P := fun t => t.Reachable ∧ s.world.log.Continues t.world.log)
      (fun t host steps source outcome t' ht hrun =>
        ⟨.run ht.1 hrun, ht.2.trans (ht.1.continues_run hrun)⟩)
      (fun t ht => ⟨.reset ht.1, ht.2.texts, ht.2.messages⟩) ⟨hs, .refl _⟩ hanswer
    -- each report was rendered once, when it came
    obtain ⟨htexts, hmessages⟩ := hs'.sound.world.rendered
    rw [htexts, hmessages]
    exact ⟨hcontinues, by simp, fun i => ⟨Array.getElem?_map, Array.getElem?_map⟩⟩

/-- A fault of an earlier run still counts in a run without faults. -/
theorem flags_truthful_sticky :
    let host : Host := ⟨fun _ => .ok ⟨0⟩, .unlimited⟩
    ∃ s s', Session.initial.run host 20 "nil();" = some (.runtimeError, s) ∧
      s.run host 20 "1;" = some (.runtimeError, s') ∧
      (s'.world.log.since 0).any Report.isRuntime = true ∧ s'.world.log.hadError = false := by
  intro host
  let s := Session.initial.after host 20 "nil();"
  have hfirst : Session.initial.run host 20 "nil();" = some (.runtimeError, s) :=
    run_of_outcome (by decide +kernel)
  have hsecond : s.run host 20 "1;" = some (.runtimeError, s.after host 20 "1;") :=
    run_of_outcome (by decide +kernel)
  have hquiet : s.world.log.hadError = false := by decide +kernel
  obtain ⟨-, -, -, hruns, -, -⟩ := flags_truthful (.run .initial hfirst)
  obtain ⟨hstatic, -, hkept, hsince⟩ := hruns _ _ _ _ _ hsecond
  have hfails : ¬s.Fails "1;" := fun h => nomatch hstatic.2 h
  have hruntime := (hsince 0 (.run .initial hfirst)).2 hfails
  refine ⟨s, _, hfirst, hsecond, ?_, (hkept hfails).trans hquiet⟩
  split at hruntime
  next hany => exact hany
  next => cases hruntime

end Session

end ClassScript
