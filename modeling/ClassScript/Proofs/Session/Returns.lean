import ClassScript.Proofs.Evaluation.Stepping
import ClassScript.Proofs.Session.Lookups

/-! # Where a return may end

The static rules for `return` are what evaluation relies on.  A program that is run ends normally,
whatever its functions return, and the body of an initializer ends normally or returns nil.
-/
namespace ClassScript

namespace Machine

variable {R : Recorded} {m : Machine}

/-- A statement ends in a way that the function around it allows. -/
theorem Sound.ofDone (h : m.Sound R) {c : Completion} (hcontrol : m.control = .done c) :
    ∃ fn ctx, m.At R .done fn ctx ∧ c.Allowed fn := by
  cases h with
  | done hcontrol' hat hc =>
    obtain rfl : _ = c := by simpa [hcontrol'] using hcontrol
    exact ⟨_, _, hat, hc⟩
  | eval h' | exec h' | value h' | text h' | fault h' => simp [h'] at hcontrol

/-- With nothing left to do, no function is around. -/
theorem Sound.top_normal (h : m.Sound R) {c : Completion} (hcontrol : m.control = .done c)
    (hframes : m.frames = []) : c = .normal := by
  obtain ⟨fn, ctx, hat, hc⟩ := h.ofDone hcontrol
  have hstack := hat.stack
  rw [hframes] at hstack
  cases hstack
  cases c with
  | normal => rfl
  | returned v => exact absurd rfl hc.1

/-- The value with which the body of an initializer is about to return. -/
def initializerReturn? (m : Machine) : Option Value :=
  match m.control, m.frames with
  | .done (.returned v), .body f :: _ => if f.isInitializer then some v else none
  | _, _ => none

theorem initializerReturn?_cases {v : Value} (h : m.initializerReturn? = some v) :
    ∃ f fs, m.control = .done (.returned v) ∧ m.frames = .body f :: fs ∧
      f.isInitializer = true := by
  unfold initializerReturn? at h
  split at h
  next w f fs hcontrol hframes =>
    split at h
    next hinitializer =>
      obtain rfl : w = v := by simpa using h
      exact ⟨f, fs, hcontrol, hframes, hinitializer⟩
    next => cases h
  next => cases h

/-- The body of an initializer returns nothing but nil. -/
theorem Sound.initializer_nil (h : m.Sound R) {v : Value}
    (hcontrol : m.control = .done (.returned v)) {f : Closure} {fs : List Frame}
    (hframes : m.frames = .body f :: fs) (hf : f.isInitializer = true) : v = .nil := by
  obtain ⟨fn, ctx, hat, hc⟩ := h.ofDone hcontrol
  have hstack := hat.stack
  rw [hframes] at hstack
  cases hstack with
  | frame hwaits _ => cases hwaits
  | body hinitializer _ => exact hc.2 (hinitializer hf).1

end Machine

namespace Session

/-- In every run of a reachable session the statement list of the program ends normally, never with
a return; and where the body of an initializer ends with a return, the value is nil. -/
theorem returns_confined {s : Session} (hs : s.Reachable) (host : Host) (source : String) :
    (∀ program s' steps c w, s.prepare source = (some program, s') →
      s'.world.execute host steps program globalScope = some (c, w) → c = .normal) ∧
    ∀ m, s.Visits host source m → ∀ v f fs, m.control = .done (.returned v) →
      m.frames = .body f :: fs → f.isInitializer = true → v = .nil := by
  constructor
  · intro program s' steps c w hprepare hexecute
    obtain ⟨m, hrun, hdone⟩ := Option.bind_eq_some_iff.1 hexecute
    have hcontrol : m.control = .done c := by
      split at hdone
      next c' hc' =>
        obtain ⟨rfl, -⟩ := Prod.mk.inj (Option.some.inj hdone)
        exact hc'
      next => cases hdone
    have hvisits : s.Visits host source m :=
      ⟨program, s', steps, hprepare, (Machine.advance_of_run hrun).symm⟩
    obtain ⟨R, hsound⟩ := hs.sound.visits hvisits
    apply hsound.top_normal hcontrol
    have hfinal := Machine.isFinal_of_run hrun
    simpa [Machine.isFinal, hcontrol] using hfinal
  · intro m hm v f fs hcontrol hframes hf
    obtain ⟨R, hsound⟩ := hs.sound.visits hm
    exact hsound.initializer_nil hcontrol hframes hf

/-- A function returns a number within an initializer, which then returns by itself. -/
theorem returns_confined_initializer :
    let host : Host := ⟨fun _ => .ok ⟨0⟩, .unlimited⟩
    let source := "class A{init(){fun f(){return 1;}f();return;}}A();"
    (∃ program s' c w, Session.initial.prepare source = (some program, s') ∧
      s'.world.execute host 80 program globalScope = some (c, w) ∧ c = .normal) ∧
    ∃ m v f fs, Session.initial.Visits host source m ∧ m.control = .done (.returned v) ∧
      m.frames = .body f :: fs ∧ f.isInitializer = true ∧ v = .nil := by
  intro host source
  obtain ⟨htop, hbody⟩ := returns_confined .initial host source
  constructor
  · obtain ⟨⟨c, w⟩, hexecute⟩ := Option.isSome_iff_exists.1
      (show (World.execute host 80 (Session.initial.prepare source).2.world
        ((Session.initial.prepare source).1.getD []) globalScope).isSome = true by decide +kernel)
    obtain ⟨program, hprogram⟩ := Option.isSome_iff_exists.1
      (show (Session.initial.prepare source).1.isSome = true by decide +kernel)
    rw [hprogram] at hexecute
    have hprepare : Session.initial.prepare source =
        (some program, (Session.initial.prepare source).2) := Prod.ext hprogram rfl
    exact ⟨program, _, c, w, hprepare, hexecute, htop _ _ _ _ _ hprepare hexecute⟩
  · have hm := visits_of_isSome .initial host source 24 (by decide +kernel)
    generalize hmachine : Machine.advance host 24 _ = m at hm
    have hreturns : m.initializerReturn?.isSome = true := by
      rw [← hmachine]
      decide +kernel
    obtain ⟨v, hv⟩ := Option.isSome_iff_exists.1 hreturns
    obtain ⟨f, fs, hcontrol, hframes, hf⟩ := Machine.initializerReturn?_cases hv
    exact ⟨m, v, f, fs, hm, hcontrol, hframes, hf, hbody m hm v f fs hcontrol hframes hf⟩

end Session

end ClassScript
