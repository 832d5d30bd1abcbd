import ClassScript.Proofs.Session.Record

/-! # Links in every session

In all sessions and at every moment of their runs, scopes and classes are linked to older ones, and
a link is never changed.  So no walk along links goes on forever.
-/
namespace ClassScript

open Store (Lasts)

namespace Session

variable {s s' : Session} {host : Host} {steps : Nat} {source : String} {outcome : Outcome}
  {m : Machine}

theorem Visits.advance (h : s.Visits host source m) (n : Nat) :
    s.Visits host source (m.advance host n) := by
  obtain ⟨program, s₁, k, hprepare, rfl⟩ := h
  exact ⟨program, s₁, k + n, hprepare, (Machine.advance_add k n).symm⟩

theorem Reachable.lasts_advance (h : s.Reachable) (hm : s.Visits host source m) (n : Nat) :
    Lasts m.world.store (m.advance host n).world.store := by
  obtain ⟨R, hsound⟩ := h.sound.visits hm
  exact ((h.visits hm).1.advance hsound host n).2

theorem Reachable.lasts_run (h : s.Reachable)
    (hrun : s.run host steps source = some (outcome, s')) :
    Lasts s.world.store s'.world.store := by
  rcases run_cases hrun with ⟨hprepare, -⟩ | ⟨program, s₁, final, hprepare, -, -, -⟩
  · have hsame := store_prepare s source
    rw [hprepare] at hsame
    exact hsame ▸ .refl _
  · have hm : s.Visits host source (s₁.world.start program) := ⟨program, s₁, 0, hprepare, rfl⟩
    rw [world_of_visits hm hrun, World.store_flush]
    exact (h.visits (hm.advance steps)).2

/-- Links lead back and stay.  In every session that comes about, and at every moment of a run, a
scope other than the global one is linked to one made before it, so that its chain ends at the
global scope; a superclass was declared before its subclasses; and walks along links need no bound.
Later in the run, after it and after any further requests, all links are still the same. -/
theorem links_descend (hs : s.Reachable) :
    s.world.store.Rooted ∧
    (∀ host source m, s.Visits host source m →
      m.world.store.Rooted ∧ Lasts s.world.store m.world.store ∧
      (∀ n, Lasts m.world.store (m.advance host n).world.store) ∧
      ∀ steps outcome s', s.run host steps source = some (outcome, s') →
        Lasts m.world.store s'.world.store) ∧
    ∀ requests outcomes s', s.answerAll requests = some (outcomes, s') →
      s'.Reachable ∧ Lasts s.world.store s'.world.store := by
  refine ⟨hs.grounded.rooted, fun host source m hm => ?_, fun requests outcomes s' hanswer => ?_⟩
  · obtain ⟨hgrounded, hlasts⟩ := hs.visits hm
    refine ⟨hgrounded.store.rooted, hlasts, hs.lasts_advance hm, fun steps outcome s' hrun => ?_⟩
    rw [world_of_visits hm hrun, World.store_flush]
    exact hs.lasts_advance hm steps
  · refine answerAll_keeps (P := fun t => t.Reachable ∧ Lasts s.world.store t.world.store)
      (fun t host steps source outcome t' ht hrun => ?_) (fun t ht => ⟨.reset ht.1, ht.2⟩)
      ⟨hs, .refl _⟩ hanswer
    exact ⟨.run ht.1 hrun, ht.2.trans (ht.1.lasts_run hrun)⟩

/-- The name of a class is given to its subclass, and then a function declares a subclass of what
has the name. -/
theorem links_descend_renamed :
    let host : Host := ⟨fun _ => .ok ⟨0⟩, .unlimited⟩
    let source := "class A{}class B<A{}A=B;fun f(){class C<A{}return C;}f();A=f();"
    ∃ outcome s', Session.initial.run host 60 source = some (outcome, s') ∧
      s'.world.store.own? globalScope "A" = some (.cls 3) ∧
      (s'.world.store.classOf 3).superclass = some 1 ∧
      (s'.world.store.classOf 1).superclass = some 0 ∧
      s'.world.store.nextScope = 6 ∧ s'.world.store.Rooted := by
  intro host source
  have hran : ((Session.initial.run host 60 source).any fun r =>
      decide (r.2.world.store.own? globalScope "A" = some (.cls 3) ∧
        (r.2.world.store.classOf 3).superclass = some 1 ∧
        (r.2.world.store.classOf 1).superclass = some 0 ∧
        r.2.world.store.nextScope = 6)) = true := by
    decide +kernel
  obtain ⟨⟨outcome, s'⟩, hrun, hfound⟩ := (Option.any_eq_true _ _).1 hran
  obtain ⟨hname, hthird, hsecond, hscopes⟩ := of_decide_eq_true hfound
  exact ⟨outcome, s', hrun, hname, hthird, hsecond, hscopes,
    (links_descend (.run .initial hrun)).1⟩

end Session

end ClassScript
