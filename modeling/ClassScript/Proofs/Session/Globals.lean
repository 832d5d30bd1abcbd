import ClassScript.Proofs.Session.Record

/-! # Local declarations stay local

A program that declares a name only inside of functions, classes and blocks, and whose assignments
to the name all go to such declarations, leaves the global name alone; and so do all functions of
earlier programs that it may call.
-/
namespace ClassScript

theorem Stmt.mem_declares {s : Stmt} {name : Token} (h : s.declared? = some name) :
    name ∈ s.declares := by
  cases s with
  | var | function | cls =>
    rw [Stmt.declares]
    exact List.mem_singleton.2 (Option.some.inj h).symm
  | _ => cases h

theorem Stmt.ShapedAll.shaped {ss : List Stmt} (h : Stmt.ShapedAll ss) : ∀ s ∈ ss, s.Shaped := by
  induction ss with
  | nil => simp
  | cons s ss ih => exact List.forall_mem_cons.2 ⟨h.1, ih h.2⟩

/-- The limits for a name that is to be spared: it is not declared at global scope, and assignments
to it have a distance. -/
def Limits.sparing (x : String) (distances : Distances) : Limits where
  target ref := ref.name.lexeme = x → (distances[ref.id]?).isSome
  declared name := name.lexeme ≠ x

namespace Machine

variable {m : Machine} {x : String} {R : Recorded}

/-- A reference with a distance is not rebound at global scope. -/
theorem Sound.target_ne_global (h : m.Sound R) {ref : Reference} (href : m.rebound? = some ref)
    (hdistance : (m.world.distance? ref).isSome) :
    m.world.target? m.scope ref ≠ some globalScope := by
  intro htarget
  obtain ⟨d, hd⟩ := Option.isSome_iff_exists.1 hdistance
  obtain ⟨Γ, hfits, hrecorded⟩ := h.resolved (.inr href)
  obtain ⟨-, j, -, -, hj, hne, -⟩ := hfits.distance (hrecorded.symm.trans hd)
  rw [World.target?, hd] at htarget
  obtain ⟨hscope, -⟩ := Option.filter_eq_some_iff.1 htarget
  exact hne (Option.some.inj (hj.symm.trans hscope))

/-- Within the limits no step binds the name at global scope. -/
theorem Grounded.binds_ne (h : m.Grounded (.sparing x m.world.distances)) (hsound : m.Sound R) :
    m.binds? ≠ some (globalScope, x) := by
  intro hbinds
  have hcontrol := h.control
  have hframes := h.frames
  -- a declaration, the end of one with an initial value, or an assignment
  unfold binds? at hbinds
  split at hbinds
  next s heq =>
    obtain ⟨name, hname, hpair⟩ := Option.map_eq_some_iff.1 hbinds
    obtain ⟨hscope, hx⟩ := Prod.mk.inj hpair
    rw [heq] at hcontrol
    exact hcontrol.declares hscope name (Stmt.mem_declares hname) hx
  next name fs _ heq =>
    obtain ⟨hscope, hx⟩ := Prod.mk.inj (Option.some.inj hbinds)
    rw [heq] at hframes
    exact hframes.1 hscope hx
  next v ref fs hvalue heq =>
    obtain ⟨k, hk, hpair⟩ := Option.map_eq_some_iff.1 hbinds
    obtain ⟨rfl, hx⟩ := Prod.mk.inj hpair
    rw [heq] at hframes
    refine hsound.target_ne_global ?_ (hframes.1 hx) hk
    simp [rebound?, hvalue, heq]
  next => cases hbinds

end Machine

namespace Session

variable {s s₁ s' : Session} {source x : String} {program : Program} {programs : List Program}

theorem own_advance (hs : s.Reachable) (hprepare : s.prepare source = (some program, s₁))
    (hstore : s.world.store.Grounded (Limits.sparing x s₁.world.distances).target)
    (hprogram : ∀ stmt ∈ program, stmt.Within (.sparing x s₁.world.distances) globalScope)
    (host : Host) (n : Nat) :
    ((s₁.world.start program).advance host n).world.store.own? globalScope x =
      s.world.store.own? globalScope x := by
  have hsame := store_prepare s source
  obtain ⟨hsound, hbound⟩ := hs.sound.prepare source
  rw [hprepare] at hsame hsound hbound
  let L := Limits.sparing x s₁.world.distances
  have hkept := Machine.advance_keeps host
    (P := fun m => m.Sound s₁.recorded ∧ m.Grounded L ∧ m.world.distances = s₁.world.distances ∧
      m.world.store.own? globalScope x = s.world.store.own? globalScope x)
    (fun m hm => ?_) ⟨hsound.world.start (hbound program rfl),
      World.grounded_start (hsame ▸ hstore) hprogram, rfl, hsame ▸ rfl⟩ n
  · exact hkept.2.2.2
  · obtain ⟨hm, hgrounded, hdistances, hown⟩ := hm
    have hleads := hgrounded.step hm.regular host
    have hspared : m.binds? ≠ some (globalScope, x) := by
      apply Machine.Grounded.binds_ne ?_ hm
      rw [hdistances]
      exact hgrounded
    refine ⟨hm.step, hleads.grounded, Machine.distances_step.trans hdistances, ?_⟩
    rw [hleads.names globalScope x hgrounded.store.global hspared, hown]

/-- Local declarations do not leak.  Every session that comes about has admitted some programs
before.  If a program does not declare a name at its top level, and every assignment to the name in
it and in the programs before it was given a distance, then a run of the program leaves the global
name unbound or bound to what it was bound to, whatever happens in the run. -/
theorem globals_spared (hs : s.Reachable) :
    (∃ programs, s.Ran programs) ∧
    ∀ programs source program s₁ x, s.Ran programs → s.prepare source = (some program, s₁) →
      (∀ stmt ∈ program, stmt.declared?.map Token.lexeme ≠ some x) →
      (∀ q ∈ program :: programs, ∀ ref ∈ Stmt.targetsAll q, ref.name.lexeme = x →
        (s₁.world.distance? ref).isSome) →
      ∀ host steps outcome s', s.run host steps source = some (outcome, s') →
        s'.world.store.own? globalScope x = s.world.store.own? globalScope x := by
  refine ⟨hs.ran, ?_⟩
  intro programs source program s₁ x hran hprepare hdeclared htargets host steps outcome s' hrun
  have hstore : s.world.store.Grounded (Limits.sparing x s₁.world.distances).target := by
    refine hran.grounded.mono fun ref href => ?_
    obtain ⟨q, hq, href⟩ := href
    exact htargets q (List.mem_cons_of_mem _ hq) ref href
  have hprogram : ∀ stmt ∈ program, stmt.Within (.sparing x s₁.world.distances) globalScope := by
    intro stmt hstmt
    have hshaped := (prepare_some hprepare).1.shaped stmt hstmt
    refine ⟨fun ref href => ?_, fun _ name hname => ?_⟩
    · exact htargets program (by simp) ref (Stmt.targets_subset hstmt href)
    · rw [hshaped.declares, Option.mem_toList] at hname
      exact fun hx => hdeclared stmt hstmt (by rw [Option.mem_def.1 hname, ← hx]; rfl)
  rcases run_cases hrun with ⟨hnone, -⟩ | ⟨program', s₁', m, hprepare', hm, rfl, -⟩
  · rw [hprepare] at hnone
    cases hnone
  · rw [hprepare] at hprepare'
    obtain ⟨rfl, rfl⟩ : program = program' ∧ s₁ = s₁' := by simpa using hprepare'
    rw [World.store_flush, ← Machine.advance_of_run hm]
    exact own_advance hs hprepare hstore hprogram host steps

/-- A block, and a function of an earlier program that is called there, have variables of the same
name as a global one. -/
theorem globals_spared_shadowed :
    let host : Host := ⟨fun _ => .ok ⟨0⟩, .unlimited⟩
    let first := "var x=\"a\";fun f(){var x;x=3;}"
    let second := "{var x;x=f();}nil();"
    ∃ s s', Session.initial.run host 20 first = some (.ok, s) ∧
      s.run host 60 second = some (.runtimeError, s') ∧
      s.world.store.own? globalScope "x" = some (.string "a") ∧
      s'.world.store.own? globalScope "x" = some (.string "a") := by
  intro host first second
  let s := Session.initial.after host 20 first
  let program := (s.prepare second).1.getD []
  have hfirst : Session.initial.run host 20 first = some (.ok, s) :=
    run_of_outcome (by decide +kernel)
  have hsecond : s.run host 60 second = some (.runtimeError, s.after host 60 second) :=
    run_of_outcome (by decide +kernel)
  have hprepare : s.prepare second = (some program, (s.prepare second).2) :=
    prepare_of_isSome (by decide +kernel)
  have hx : s.world.store.own? globalScope "x" = some (.string "a") := by decide +kernel
  have hspared := (globals_spared (.run .initial hfirst)).2 _ second program _ "x"
    (.run .initial hfirst) hprepare (by decide +kernel) (by decide +kernel) host 60 _ _ hsecond
  exact ⟨s, _, hfirst, hsecond, hx, hspared.trans hx⟩

end Session

end ClassScript
