import ClassScript.Proofs.Evaluation.Lifting
import ClassScript.Proofs.Evaluation.Onward
import ClassScript.Proofs.Session.Returns

/-! # Evaluation comes back

Part of an evaluation is what a machine does until nothing but the frames below is left.  It ends in
the scope in which it began.  A statement list does not end with a fault: it reports the faults that
are raised in it, each once and in order.  So a call and the text of a value end with a result.
-/
namespace ClassScript

namespace Machine

variable {R : Recorded} {host : Host} {base above : List Frame} {m m' : Machine}
  {faults : List Fault}

/-- Evaluation goes on until nothing but the frames `base` is left.  On the way the faults are
raised, in this order. -/
inductive Finishes (host : Host) (base : List Frame) : Machine → List Fault → Machine → Prop where
  | now {above : List Frame} {m : Machine} (hframes : m.frames = above ++ base)
      (hfinal : isFinal { m with frames := above } = true) : Finishes host base m [] m
  | later {above : List Frame} {m m' : Machine} {faults : List Fault}
      (hframes : m.frames = above ++ base) (hgoing : isFinal { m with frames := above } = false)
      (hrest : Finishes host base (m.step host) faults m') :
      Finishes host base m (m.raised host ++ faults) m'

theorem above_eq_nil (h : isFinal { m with frames := above } = true) : above = [] := by
  unfold isFinal at h
  split at h
  · cases h
  · cases h
  all_goals simpa using h

theorem ne_below (above : List Frame) (f : Frame) (base : List Frame) :
    [] ++ base ≠ above ++ f :: base := by
  intro h
  have hlength := congrArg List.length h
  simp at hlength
  omega

/-- While frames of its own are left, a machine does not touch those below. -/
theorem step_above (host : Host) (hframes : m.frames = above ++ base)
    (hgoing : isFinal { m with frames := above } = false) :
    m.step host =
      { step host { m with frames := above } with
        frames := (step host { m with frames := above }).frames ++ base } := by
  let z : Machine := { m with frames := above }
  let σ : Surroundings := { distances := m.world.distances, before := m.world.log }
  have hz : z.unreported.inside σ = z :=
    (inside_unreported z _ []).trans (by rw [List.append_nil])
  have hm : z.unreported.inside { σ with below := base } = m := by
    apply (inside_unreported z m.world.distances base).trans
    simp only [z, ← hframes]
  have hgoing' : isFinal z.unreported = false := hgoing
  have hstep : z.step host = (z.unreported.step host).inside σ :=
    (congrArg (step host) hz.symm).trans (inside_step (fun _ _ => rfl) (fun _ _ => rfl) hgoing')
  calc
    m.step host = (z.unreported.inside { σ with below := base }).step host := by rw [hm]
    _ = (z.unreported.step host).inside { σ with below := base } :=
      inside_step (fun _ _ => rfl) (fun _ _ => rfl) hgoing'
    _ = _ := by
      rw [hstep]
      simp [Machine.inside, World.inside, σ]

/-- Evaluation comes back just if it ends when nothing is below, and as it does then. -/
theorem finishes_iff (hframes : m.frames = above ++ base) :
    (∃ faults, Finishes host base m faults m') ↔
      ∃ z, Ends host { m with frames := above } z ∧ m' = { z with frames := base } := by
  constructor
  · rintro ⟨faults, h⟩
    induction h generalizing above with
    | @now above' m hframes' hfinal =>
      obtain rfl : above = above' := List.append_cancel_right (hframes.symm.trans hframes')
      have hnil : above = [] := above_eq_nil hfinal
      refine ⟨_, (ends_of_final hfinal).2 rfl, ?_⟩
      rw [hnil] at hframes
      rw [show base = m.frames from hframes.symm]
    | @later above' m m' faults hframes' hgoing hrest ih =>
      obtain rfl : above = above' := List.append_cancel_right (hframes.symm.trans hframes')
      have hstep := step_above host hframes hgoing
      obtain ⟨z, hz, hm'⟩ := ih (congrArg Machine.frames hstep)
      refine ⟨z, (ends_step hgoing).2 ?_, hm'⟩
      rw [hstep] at hz
      exact hz
  · rintro ⟨z, ⟨n, hn⟩, rfl⟩
    induction n generalizing m above with
    | zero => cases hn
    | succ n ih =>
      rw [Machine.run] at hn
      split at hn
      next hfinal =>
        obtain rfl : { m with frames := above } = z := by simpa using hn
        have hnil : above = [] := above_eq_nil hfinal
        rw [hnil] at hframes
        refine ⟨[], ?_⟩
        rw [show base = m.frames from hframes.symm]
        exact @Finishes.now host m.frames [] m rfl (hnil ▸ hfinal)
      next hgoing =>
        have hgoing : isFinal { m with frames := above } = false := by simpa using hgoing
        have hstep := step_above host hframes hgoing
        obtain ⟨faults, hrest⟩ := ih (congrArg Machine.frames hstep) (by rw [hstep]; exact hn)
        exact ⟨_, .later hframes hgoing hrest⟩

namespace Finishes

/-- Nothing but the frames below is left. -/
theorem frames (h : Finishes host base m faults m') : m'.frames = base := by
  induction h with
  | now hframes hfinal => rw [hframes, above_eq_nil hfinal, List.nil_append]
  | later _ _ _ ih => exact ih

theorem sound (h : Finishes host base m faults m') (hsound : m.Sound R) : m'.Sound R := by
  induction h with
  | now => exact hsound
  | later _ _ _ ih => exact ih hsound.step

/-- Evaluation ends in the scope that its frames lead back to. -/
theorem scope (h : Finishes host base m faults m') (hsound : m.Sound R) (above : List Frame)
    (hframes : m.frames = above ++ base) : m'.scope = outward { m with frames := above } := by
  induction h generalizing above with
  | @now above' m hframes' hfinal =>
    obtain rfl : above = above' := List.append_cancel_right (hframes.symm.trans hframes')
    rw [show above = [] from above_eq_nil hfinal]
    rfl
  | @later above' m m' faults hframes' hgoing hrest ih =>
    obtain rfl : above = above' := List.append_cancel_right (hframes.symm.trans hframes')
    have hstep := step_above host hframes hgoing
    have hregular : Regular { m with frames := above } := by
      intro f fs hfs hcontrol
      obtain rfl : above = f :: fs := hfs
      exact hsound.regular f (fs ++ base) hframes hcontrol
    rw [ih hsound.step _ (congrArg Machine.frames hstep), hstep]
    exact hregular.outward_step host

/-- All faults that were raised have been reported, except for one with which evaluation ends. -/
theorem reports (h : Finishes host base m faults m') (hsound : m.Sound R) :
    m'.world.log.reports.toList ++ m'.pending.map Fault.report =
      m.world.log.reports.toList ++ (m.pending ++ faults).map Fault.report := by
  induction h with
  | now => rw [List.append_nil]
  | later _ _ _ ih =>
    rw [ih hsound.step, List.map_append, ← List.append_assoc, hsound.regular.reports_step host]
    simp

/-- An instance that was made is one of its class in the end. -/
theorem object (h : Finishes host base m faults m') (hsound : m.Sound R) {id : Nat}
    (hid : id < m.world.store.nextObject) :
    id < m'.world.store.nextObject ∧
      (m'.world.store.object id).cls = (m.world.store.object id).cls := by
  induction h with
  | now => exact ⟨hid, rfl⟩
  | later _ _ _ ih =>
    obtain ⟨hlt, hcls⟩ := hsound.regular.object_step host hid
    obtain ⟨hlt', hcls'⟩ := ih hsound.step hlt
    exact ⟨hlt', hcls'.trans hcls⟩

/-- Evaluation comes back to a frame on its way before it comes back to what is below that. -/
theorem through {f : Frame} (h : Finishes host base m faults m') (above : List Frame)
    (hframes : m.frames = above ++ f :: base) :
    ∃ z faults₁ faults₂, Finishes host (f :: base) m faults₁ z ∧
      Finishes host base (z.step host) faults₂ m' := by
  induction h generalizing above with
  | @now above' m hframes' hfinal =>
    rw [hframes', above_eq_nil hfinal] at hframes
    exact absurd hframes (ne_below above f base)
  | @later above' m m' faults hframes' hgoing hrest ih =>
    cases hfinal : isFinal { m with frames := above } with
    | true => exact ⟨m, [], faults, .now hframes hfinal, hrest⟩
    | false =>
      have hstep := step_above host hframes hfinal
      obtain ⟨z, faults₁, faults₂, hfirst, hsecond⟩ := ih _ (congrArg Machine.frames hstep)
      exact ⟨z, _, faults₂, .later hframes hfinal hfirst, hsecond⟩

/-- With a frame left, there is a step to take. -/
theorem after {f : Frame} (h : Finishes host base m faults m')
    (hframes : m.frames = [f] ++ base) :
    ∃ faults', Finishes host base (m.step host) faults' m' := by
  cases h with
  | now hframes' hfinal =>
    rw [hframes', above_eq_nil hfinal] at hframes
    exact absurd hframes (ne_below [] f base)
  | later _ _ hrest => exact ⟨_, hrest⟩

/-- What has come back already stays. -/
theorem eq_of_stopped (h : Finishes host base m faults m') (hframes : m.frames = base)
    (hresult : (∃ v, m.control = .value v) ∨ (∃ text, m.control = .text text) ∨
      (∃ c, m.control = .done c) ∨ ∃ f, m.control = .fault f) : m' = m := by
  cases h with
  | now => rfl
  | @later above _ _ _ hframes' hgoing _ =>
    have hnil : above = [] := by
      have := hframes.symm.trans hframes'
      simpa using congrArg List.length this
    subst hnil
    rcases hresult with ⟨_, h⟩ | ⟨_, h⟩ | ⟨_, h⟩ | ⟨_, h⟩ <;> simp [isFinal, h] at hgoing

/-- A statement list ends, and not with a fault. -/
theorem list (h : Finishes host base m faults m') (hsound : m.Sound R) (above : List Frame)
    {rest : List Stmt} {outer : Nat} (hframes : m.frames = above ++ .sequence rest outer :: base) :
    ∃ c, m'.control = .done c := by
  induction h generalizing above rest with
  | @now above' m hframes' hfinal =>
    rw [hframes', above_eq_nil hfinal] at hframes
    exact absurd hframes (ne_below above _ base)
  | @later above' m m' faults hframes' hgoing hrest ih =>
    cases hfinal : isFinal { m with frames := above } with
    | false =>
      have hstep := step_above host hframes hfinal
      exact ih hsound.step _ (congrArg Machine.frames hstep)
    | true =>
      -- the list itself is told of what has been found
      obtain rfl : above = [] := above_eq_nil hfinal
      obtain ⟨control, frames, scope, world⟩ := m
      obtain rfl : frames = .sequence rest outer :: base := hframes
      cases control with
      | eval e | exec s => cases hfinal
      | value v => cases hsound.regular _ _ rfl (.inl ⟨v, rfl⟩)
      | text text => cases hsound.regular _ _ rfl (.inr ⟨text, rfl⟩)
      | fault f => exact ih hsound.step [] rfl
      | done c =>
        cases c with
        | returned v =>
          rw [hrest.eq_of_stopped rfl (.inr (.inr (.inl ⟨_, rfl⟩)))]
          exact ⟨_, rfl⟩
        | normal =>
          cases rest with
          | nil => exact ⟨_, by rw [hrest.eq_of_stopped rfl (.inr (.inr (.inl ⟨_, rfl⟩)))]; rfl⟩
          | cons s rest => exact ih hsound.step [] rfl

/-- A call ends with a value. -/
theorem body (h : Finishes host base m faults m') (hsound : m.Sound R) {c : Closure}
    {rest : List Stmt} {outer : Nat}
    (hframes : m.frames = .sequence rest outer :: .body c :: base) :
    ∃ v, m'.control = .value v := by
  obtain ⟨z, _, _, hlist, hreturn⟩ := h.through [.sequence rest outer] hframes
  obtain ⟨completion, hcontrol⟩ := hlist.list hsound [] hframes
  have hz := hlist.sound hsound
  have hbelow := hlist.frames
  obtain ⟨v, hv⟩ : ∃ v, z.callResult c completion = .ok v := by
    obtain ⟨fn, ctx, hat, -⟩ := hz.ofDone hcontrol
    have hstack := hat.stack
    rw [hbelow] at hstack
    cases hstack with
    | frame hf _ => cases hf
    | body hf _ => exact callResult_ok fun hinitializer => (hf hinitializer).2
  obtain ⟨control, frames, scope, world⟩ := z
  obtain rfl : control = .done completion := hcontrol
  obtain rfl : frames = .body c :: base := hbelow
  have hstep : step host ⟨.done completion, .body c :: base, scope, world⟩ =
      ⟨.value v, base, scope, world⟩ := by
    change settle ⟨_, base, scope, world⟩ (callResult ⟨_, base, scope, world⟩ c completion) = _
    have hresult : callResult ⟨.done completion, base, scope, world⟩ c completion = .ok v := hv
    rw [hresult]
    rfl
  rw [hstep] at hreturn
  exact ⟨v, by rw [hreturn.eq_of_stopped rfl (.inl ⟨v, rfl⟩)]⟩

end Finishes

end Machine

end ClassScript
