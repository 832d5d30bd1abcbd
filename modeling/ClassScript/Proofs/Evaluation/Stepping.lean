import ClassScript.Evaluation.Run

/-! # Runs and their ends

A run is a number of steps, and a machine that stops does so in one way, however many steps it is
given beyond those it needs.
-/
namespace ClassScript

namespace Machine

variable {host : Host} {m m' m'' : Machine}

theorem advance_succ (h : m.isFinal = false) (n : Nat) :
    m.advance host (n + 1) = (m.step host).advance host n := by
  rw [Machine.advance, h]
  rfl

theorem advance_of_final (h : m.isFinal = true) (n : Nat) : m.advance host n = m := by
  cases n with
  | zero => rfl
  | succ n => rw [Machine.advance, if_pos h]

theorem advance_add (n k : Nat) : m.advance host (n + k) = (m.advance host n).advance host k := by
  induction n generalizing m with
  | zero =>
    rw [Nat.zero_add]
    rfl
  | succ n ih =>
    rw [Nat.succ_add]
    by_cases h : m.isFinal = true
    · rw [advance_of_final h, advance_of_final h, advance_of_final h]
    · have hgoing : m.isFinal = false := by simpa using h
      rw [advance_succ hgoing, advance_succ hgoing, ih]

/-- What every step keeps holds after any number of steps. -/
theorem advance_keeps {P : Machine → Prop} (host : Host) (hstep : ∀ m, P m → P (m.step host))
    (h : P m) (n : Nat) : P (m.advance host n) := by
  induction n generalizing m with
  | zero => exact h
  | succ n ih =>
    rw [Machine.advance]
    split
    · exact h
    · exact ih (hstep m h)

theorem run_succ_of_step (h : m.isFinal = false) (n : Nat) :
    m.run host (n + 1) = (m.step host).run host n := by
  rw [Machine.run, h]
  rfl

theorem isFinal_of_run {n : Nat} (h : m.run host n = some m') : m'.isFinal = true := by
  induction n generalizing m with
  | zero => cases h
  | succ n ih =>
    rw [Machine.run] at h
    split at h
    next hfinal =>
      obtain rfl : m = m' := by simpa using h
      exact hfinal
    next => exact ih h

theorem run_succ {n : Nat} (h : m.run host n = some m') : m.run host (n + 1) = some m' := by
  induction n generalizing m with
  | zero => cases h
  | succ n ih =>
    rw [Machine.run] at h ⊢
    by_cases hfinal : m.isFinal = true
    · rw [if_pos hfinal] at h ⊢
      exact h
    · rw [if_neg hfinal] at h ⊢
      exact ih h

theorem run_add {n : Nat} (h : m.run host n = some m') (k : Nat) :
    m.run host (n + k) = some m' := by
  induction k with
  | zero => exact h
  | succ k ih => exact run_succ ih

/-- The machine stops, and this is how. -/
def Ends (host : Host) (m m' : Machine) : Prop := ∃ n, m.run host n = some m'

theorem Ends.isFinal (h : Ends host m m') : m'.isFinal = true := by
  obtain ⟨n, hn⟩ := h
  exact isFinal_of_run hn

theorem Ends.unique (h : Ends host m m') (h' : Ends host m m'') : m' = m'' := by
  obtain ⟨n, hn⟩ := h
  obtain ⟨k, hk⟩ := h'
  have hleft := run_add hn k
  have hright := run_add hk n
  rw [Nat.add_comm k n, hleft] at hright
  exact Option.some.inj hright

theorem ends_of_final (h : m.isFinal = true) : Ends host m m' ↔ m' = m := by
  have hself : Ends host m m := ⟨1, by rw [Machine.run, if_pos h]⟩
  constructor
  · intro hends
    exact hends.unique hself
  · rintro rfl
    exact hself

/-- A machine that has not stopped ends as it does after one more step. -/
theorem ends_step (h : m.isFinal = false) : Ends host m m' ↔ Ends host (m.step host) m' := by
  constructor
  · rintro ⟨n, hn⟩
    cases n with
    | zero => cases hn
    | succ n => exact ⟨n, (run_succ_of_step h n).symm.trans hn⟩
  · rintro ⟨n, hn⟩
    exact ⟨n + 1, (run_succ_of_step h n).trans hn⟩

theorem ends_of_advance {n : Nat} (h : Ends host (m.advance host n) m') : Ends host m m' := by
  induction n generalizing m with
  | zero => exact h
  | succ n ih =>
    cases hfinal : m.isFinal with
    | true =>
      rw [Machine.advance, if_pos hfinal] at h
      exact h
    | false =>
      rw [advance_succ hfinal] at h
      exact (ends_step hfinal).2 (ih h)

end Machine

namespace World

variable {host : Host} {w w' : World} {program : Program}

/-- A program that ends leaves the world of the machine that has stopped, once the output is
flushed. -/
theorem runProgram_iff :
    (∃ steps, w.runProgram host steps program = some w') ↔
      ∃ m c, Machine.Ends host (w.start program) m ∧ m.control = .done c ∧
        w' = m.world.flush host := by
  constructor
  · rintro ⟨steps, h⟩
    obtain ⟨⟨c, w⟩, hexecute, rfl⟩ := Option.map_eq_some_iff.1 h
    obtain ⟨m, hrun, hdone⟩ := Option.bind_eq_some_iff.1 hexecute
    split at hdone
    next c' hcontrol =>
      obtain ⟨rfl, rfl⟩ := Prod.mk.inj (Option.some.inj hdone)
      exact ⟨m, c', ⟨steps, hrun⟩, hcontrol, rfl⟩
    next => cases hdone
  · rintro ⟨m, c, ⟨steps, hrun⟩, hcontrol, rfl⟩
    refine ⟨steps, ?_⟩
    have hexecute : w.execute host steps program globalScope = some (c, m.world) := by
      rw [World.start] at hrun
      simp [World.execute, hrun, hcontrol]
    rw [World.runProgram, hexecute]
    rfl

end World

end ClassScript
