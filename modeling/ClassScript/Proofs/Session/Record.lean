import ClassScript.Proofs.Evaluation.Leading
import ClassScript.Proofs.Session.Dispatch
import ClassScript.Proofs.Session.Failure

/-! # The programs of a session

What a run does, once and for all; and the record of all programs that a session has admitted.  The
code that a session holds is theirs.
-/
namespace ClassScript

open Store (Lasts)

namespace World

variable {w : World}

@[simp] theorem store_flush (w : World) (host : Host) : (w.flush host).store = w.store := by
  unfold World.flush
  split <;> rfl

/-- A program within the limits can be started. -/
theorem grounded_start {L : Limits} {program : Program} (h : w.store.Grounded L.target)
    (hprogram : ∀ stmt ∈ program, stmt.Within L globalScope) : (w.start program).Grounded L :=
  ⟨h, h.global, trivial, ⟨hprogram, h.global⟩, trivial⟩

theorem grounded_initial (allowed : Reference → Prop) :
    World.initial.store.Grounded allowed where
  natives id := by cases id <;> rfl
  outermost := rfl
  enclosing k hk hglobal := by
    have hlt : k < 1 := hk
    have hzero : k ≠ 0 := hglobal
    omega
  superclass cls superclass hcls := by
    rw [classOf_initial] at hcls
    cases hcls
  global := by decide
  names k name v hv := by
    rw [World.initial, World.supply, Store.own?_define] at hv
    split at hv
    · cases hv
      exact Value.declared_of_ne (by simp)
    · have hnone : (Store.addScope {} none).own? k name = none := by
        rw [Store.own?_addScope, Store.own?_of_le _ (Nat.zero_le k)]
      exact absurd (hnone.symm.trans hv) (by simp)
  fields id name v hv := by
    cases hv
  functions id := by
    rw [closure_initial]
    exact ⟨by decide, fun ref href => absurd href List.not_mem_nil⟩
  methods cls name c hc := by
    rw [classOf_initial] at hc
    cases hc

end World

namespace Session

variable {s s' : Session} {host : Host} {steps : Nat} {source : String} {outcome : Outcome}

/-- A run is refused, or a program is executed to its end and the output is flushed. -/
theorem run_cases (h : s.run host steps source = some (outcome, s')) :
    (s.prepare source = (none, s') ∧ outcome = .staticError) ∨
    ∃ program s₁ m, s.prepare source = (some program, s₁) ∧
      (s₁.world.start program).run host steps = some m ∧
      s' = { s₁ with world := m.world.flush host } ∧ outcome = s'.outcome := by
  unfold Session.run at h
  split at h
  next s₁ heq =>
    obtain ⟨rfl, rfl⟩ := Prod.mk.inj (Option.some.inj h)
    exact .inl ⟨heq, rfl⟩
  next program s₁ heq =>
    obtain ⟨world, hworld, hs'⟩ := Option.map_eq_some_iff.1 h
    obtain ⟨rfl, rfl⟩ := Prod.mk.inj hs'
    obtain ⟨⟨c, w⟩, hexecute, rfl⟩ := Option.map_eq_some_iff.1 hworld
    obtain ⟨m, hrun, hdone⟩ := Option.bind_eq_some_iff.1 hexecute
    have hw : m.world = w := by
      split at hdone <;> cases hdone
      rfl
    exact .inr ⟨program, s₁, m, heq, hrun, by rw [hw], rfl⟩

/-- A run that ends goes on from every machine that it visits. -/
theorem world_of_visits {m : Machine} (hm : s.Visits host source m)
    (hrun : s.run host steps source = some (outcome, s')) :
    s'.world = (m.advance host steps).world.flush host := by
  obtain ⟨program, s₁, n, hprepare, rfl⟩ := hm
  rcases run_cases hrun with ⟨hnone, -⟩ | ⟨program', s₁', final, hprepare', hfinal, rfl, -⟩
  · rw [hprepare] at hnone
    cases hnone
  · rw [hprepare] at hprepare'
    obtain ⟨rfl, rfl⟩ : program = program' ∧ s₁ = s₁' := by simpa using hprepare'
    rw [← Machine.advance_add, Nat.add_comm, Machine.advance_of_run (Machine.run_add hfinal n)]

theorem prepare_of_isSome (h : (s.prepare source).1.isSome = true) :
    s.prepare source = (some ((s.prepare source).1.getD []), (s.prepare source).2) := by
  obtain ⟨program, hprogram⟩ := Option.isSome_iff_exists.1 h
  rw [hprogram]
  exact Prod.ext hprogram rfl

/-- The session after a run that ends. -/
def after (host : Host) (steps : Nat) (s : Session) (source : String) : Session :=
  ((s.run host steps source).map Prod.snd).getD s

theorem run_of_outcome (h : (s.run host steps source).map Prod.fst = some outcome) :
    s.run host steps source = some (outcome, s.after host steps source) := by
  obtain ⟨⟨outcome, s'⟩, hrun, rfl⟩ := Option.map_eq_some_iff.1 h
  rw [after, hrun]
  rfl

/-- What every run and every reset keeps holds after all requests. -/
theorem answerAll_keeps {P : Session → Prop}
    (hrun : ∀ s host steps source outcome s', P s → s.run host steps source = some (outcome, s') →
      P s')
    (hreset : ∀ s, P s → P s.reset) {requests : List Request} {outcomes : List Outcome} (h : P s)
    (hanswer : s.answerAll requests = some (outcomes, s')) : P s' := by
  induction requests generalizing s outcomes with
  | nil =>
    obtain ⟨-, rfl⟩ := Prod.mk.inj (Option.some.inj hanswer)
    exact h
  | cons request requests ih =>
    obtain ⟨⟨first, s₁⟩, hfirst, hanswer⟩ := Option.bind_eq_some_iff.1 hanswer
    obtain ⟨⟨rest, s₂⟩, hrest, heq⟩ := Option.map_eq_some_iff.1 hanswer
    obtain ⟨-, rfl⟩ := Prod.mk.inj heq
    refine ih ?_ hrest
    cases request with
    | reset =>
      obtain ⟨-, rfl⟩ := Prod.mk.inj (Option.some.inj hfirst)
      exact hreset s h
    | run host steps source =>
      obtain ⟨⟨outcome, s₁'⟩, hs₁, heq⟩ := Option.map_eq_some_iff.1 hfirst
      obtain ⟨-, rfl⟩ := Prod.mk.inj heq
      exact hrun s host steps source outcome s₁' h hs₁

/-- A session that comes about, with the programs that it has admitted, the last one first. -/
inductive Ran : Session → List Program → Prop where
  | initial : Ran .initial []
  | run {s s' : Session} {programs : List Program} {host : Host} {steps : Nat} {source : String}
      {outcome : Outcome} (hs : Ran s programs)
      (hrun : s.run host steps source = some (outcome, s')) :
      Ran s' ((s.prepare source).1.toList ++ programs)
  | reset {s : Session} {programs : List Program} (hs : Ran s programs) : Ran s.reset programs

theorem Reachable.ran (h : s.Reachable) : ∃ programs, s.Ran programs := by
  induction h with
  | initial => exact ⟨_, .initial⟩
  | run _ hrun ih =>
    obtain ⟨programs, hprograms⟩ := ih
    exact ⟨_, .run hprograms hrun⟩
  | reset _ ih =>
    obtain ⟨programs, hprograms⟩ := ih
    exact ⟨programs, .reset hprograms⟩

theorem Ran.reachable {programs : List Program} (h : s.Ran programs) : s.Reachable := by
  induction h with
  | initial => exact .initial
  | run _ hrun ih => exact .run ih hrun
  | reset _ ih => exact .reset ih

/-- A program within the limits keeps to them, and what was made stays. -/
theorem Sound.advance_grounded (hs : s.Sound) {L : Limits} {program : Program} {s₁ : Session}
    (hprepare : s.prepare source = (some program, s₁)) (hstore : s.world.store.Grounded L.target)
    (hprogram : ∀ stmt ∈ program, stmt.Within L globalScope) (host : Host) (n : Nat) :
    ((s₁.world.start program).advance host n).Grounded L ∧
      Lasts s.world.store ((s₁.world.start program).advance host n).world.store := by
  have hsame := store_prepare s source
  obtain ⟨hsound, hbound⟩ := hs.prepare source
  rw [hprepare] at hsame hsound hbound
  have hstart : (s₁.world.start program).Grounded L :=
    World.grounded_start (hsame ▸ hstore) hprogram
  rw [← hsame]
  exact hstart.advance (hsound.world.start (hbound program rfl)) host n

/-- The targets of all assignments in some programs. -/
def targetOf (programs : List Program) (ref : Reference) : Prop :=
  ∃ program ∈ programs, ref ∈ Stmt.targetsAll program

/-- All code of a session is from programs that it has admitted. -/
theorem Ran.grounded {programs : List Program} (h : s.Ran programs) :
    s.world.store.Grounded (targetOf programs) := by
  induction h with
  | initial => exact World.grounded_initial _
  | @run s s' programs host steps source outcome hs hrun ih =>
    rcases run_cases hrun with ⟨hprepare, -⟩ | ⟨program, s₁, m, hprepare, hm, rfl, -⟩
    · have hsame := store_prepare s source
      rw [hprepare] at hsame ⊢
      exact hsame ▸ ih
    · let L : Limits := ⟨targetOf (program :: programs), fun _ => True⟩
      have hstore : s.world.store.Grounded L.target := by
        refine ih.mono fun ref href => ?_
        obtain ⟨q, hq, href⟩ := href
        exact ⟨q, List.mem_cons_of_mem _ hq, href⟩
      have hprogram : ∀ stmt ∈ program, stmt.Within L globalScope := fun stmt hstmt =>
        ⟨fun ref href => ⟨program, by simp, Stmt.targets_subset hstmt href⟩, fun _ _ _ => trivial⟩
      have hgrounded := (hs.reachable.sound.advance_grounded hprepare hstore hprogram host steps).1
      rw [Machine.advance_of_run hm] at hgrounded
      rw [hprepare, World.store_flush]
      exact hgrounded.store
  | reset _ ih => exact ih

theorem Reachable.grounded (h : s.Reachable) : s.world.store.Grounded fun _ => True := by
  obtain ⟨programs, hprograms⟩ := h.ran
  exact hprograms.grounded.mono fun _ _ => trivial

/-- Machines that a session goes through, with no limits. -/
theorem Reachable.visits {m : Machine} (h : s.Reachable) (hm : s.Visits host source m) :
    m.Grounded ⟨fun _ => True, fun _ => True⟩ ∧ Lasts s.world.store m.world.store := by
  obtain ⟨program, s₁, n, hprepare, rfl⟩ := hm
  refine h.sound.advance_grounded hprepare h.grounded (fun stmt _ => ?_) host n
  exact ⟨fun _ _ => trivial, fun _ _ _ => trivial⟩

end Session

end ClassScript
