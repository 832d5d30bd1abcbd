import ClassScript.Proofs.Evaluation.Homes
import ClassScript.Proofs.Session.Lookups

/-! # What `this` and `super` stand for

The record of homes is kept from the first run of a session on.  Wherever code of a method runs, be
it the method itself or a function declared in it and called much later, `this` is the instance that
the method was looked up on, and `super` looks methods up from the superclass that the class of the
method was declared with.
-/
namespace ClassScript

/-- A function value is a method bound to an instance: just inside the scope of the method, its own
scope binds `this`. -/
structure Store.IsBound (s : Store) (id : Nat) (method : Closure) (object : Nat) : Prop where
  closure : s.closure id = { method with scope := (s.closure id).scope }
  this : s.own? (s.closure id).scope "this" = some (.object object)
  enclosing : (s.scope (s.closure id).scope).enclosing = some method.scope

theorem World.isBound_methodValue (w : World) (method : Closure) (object : Nat) :
    ∃ id, (w.methodValue method object).2 = .function id ∧
      (w.methodValue method object).1.store.IsBound id method object := by
  let s := (w.store.addScope (some method.scope)).define w.store.nextScope "this" (.object object)
  have hclosure : (w.methodValue method object).1.store.closure s.nextFunction =
      { method with scope := w.store.nextScope } :=
    (Store.closure_addFunction s _ _).trans (if_pos rfl)
  have hown : s.own? w.store.nextScope "this" = some (.object object) := by
    simp [s, Store.own?_define]
  have hlink : (s.scope w.store.nextScope).enclosing = some method.scope := by
    simp [s, Store.enclosing_addScope_self]
  refine ⟨s.nextFunction, rfl, ?_, ?_, ?_⟩
  · rw [hclosure]
  · rw [hclosure]
    exact hown
  · rw [hclosure]
    exact hlink

/-- The name of the method that the machine is about to take from `super`. -/
def Machine.super? (m : Machine) : Option Token :=
  match m.control with
  | .eval (.super _ name) => some name
  | _ => none

theorem Machine.super?_cases {m : Machine} {name : Token} (h : m.super? = some name) :
    ∃ ref, m.control = .eval (.super ref name) := by
  unfold super? at h
  split at h <;> simp_all

namespace Machine.Housed

variable {g : Homes} {m : Machine} {R : Recorded} {ref : Reference}

theorem this_step (h : m.Housed g) (hm : m.Sound R) (hcontrol : m.control = .eval (.this ref))
    (host : Host) :
    ∃ home, g.scopes m.scope = some home ∧ m.step host = m.yield (.object home.object) := by
  obtain ⟨_, ctx, hat, he⟩ := hm.ofEval hcontrol
  obtain ⟨home, hhome, hread⟩ := h.read_this hat he
  exact ⟨home, hhome, by simp [Machine.step, hcontrol, Machine.evalStep, hread, Machine.settle]⟩

/-- The look-up begins at the superclass of the class at home and is made for the instance at home,
to which the method that it finds is bound. -/
theorem super_step (h : m.Housed g) (hm : m.Sound R) {name : Token}
    (hcontrol : m.control = .eval (.super ref name)) (host : Host) :
    ∃ home superclass, g.scopes m.scope = some home ∧ g.superclass home.cls = some superclass ∧
      (m.world.store.classOf home.cls).superclass = some superclass ∧
      m.lookup? = some ⟨superclass, name.lexeme, home.object⟩ ∧
      (m.world.store.method? superclass name.lexeme = none →
        m.step host = m.raise (.ofToken name (.undefinedProperty name.lexeme))) ∧
      ∀ method, m.world.store.method? superclass name.lexeme = some method →
        ∃ id, (m.step host).control = .value (.function id) ∧
          (m.step host).world.store.IsBound id method home.object := by
  obtain ⟨_, ctx, hat, he⟩ := hm.ofEval hcontrol
  obtain ⟨home, superclass, hhome, hsuperclass, hcls, hparts⟩ := h.superParts hat he
  have hstep : m.step host = m.superMethod ref name := by
    simp only [Machine.step, hcontrol, Machine.evalStep]
  refine ⟨home, superclass, hhome, hsuperclass, hcls, ?_, fun hnone => ?_, fun method hmethod => ?_⟩
  · simp [Machine.lookup?, hcontrol, hparts, Except.toOption]
  · simp only [hstep, Machine.superMethod, hparts, hnone]
  · obtain ⟨id, hid, hbound⟩ := World.isBound_methodValue m.world method home.object
    refine ⟨id, ?_, ?_⟩
    · simp only [hstep, Machine.superMethod, hparts, hmethod, hid]
    · simpa only [hstep, Machine.superMethod, hparts, hmethod] using hbound

end Machine.Housed

namespace Session

variable {s s' : Session} {g g' : Homes} {host : Host} {source : String} {m : Machine}

/-- The record after a run of at most `steps` steps. -/
def homes (host : Host) (steps : Nat) (s : Session) (source : String) (g : Homes) : Homes :=
  match s.prepare source with
  | (none, _) => g
  | (some program, s') => g.follow host steps (s'.world.start program)

theorem homes_of_none (h : s.prepare source = (none, s')) (steps : Nat) :
    s.homes host steps source g = g := by
  rw [homes, h]

theorem homes_of_some {program : Program} (h : s.prepare source = (some program, s'))
    (steps : Nat) :
    s.homes host steps source g = g.follow host steps (s'.world.start program) := by
  rw [homes, h]

/-- A session that comes about, with the record of all its runs. -/
inductive Traced : Session → Homes → Prop where
  | initial : Traced .initial .initial
  | run {s s' : Session} {g : Homes} {host : Host} {steps : Nat} {source : String}
      {outcome : Outcome} (hs : Traced s g)
      (hrun : s.run host steps source = some (outcome, s')) :
      Traced s' (s.homes host steps source g)
  | reset {s : Session} {g : Homes} (hs : Traced s g) : Traced s.reset g

/-- The machine comes about while the session runs a source text, with this record by then. -/
def VisitsWith (s : Session) (g : Homes) (host : Host) (source : String) (m : Machine)
    (g' : Homes) : Prop :=
  ∃ program s' n, s.prepare source = (some program, s') ∧
    m = (s'.world.start program).advance host n ∧ g' = g.follow host n (s'.world.start program)

theorem Traced.reachable (h : s.Traced g) : s.Reachable := by
  induction h with
  | initial => exact .initial
  | run _ hrun ih => exact .run ih hrun
  | reset _ ih => exact .reset ih

theorem Reachable.traced (h : s.Reachable) : ∃ g, s.Traced g := by
  induction h with
  | initial => exact ⟨_, .initial⟩
  | run _ hrun ih =>
    obtain ⟨g, hg⟩ := ih
    exact ⟨_, .run hg hrun⟩
  | reset _ ih =>
    obtain ⟨g, hg⟩ := ih
    exact ⟨g, .reset hg⟩

/-- Reading and analysing a text does not touch the store. -/
theorem store_prepare (s : Session) (source : String) :
    (s.prepare source).2.world.store = s.world.store := by
  unfold Session.prepare
  generalize Program.ofSource s.nextId source = reading
  obtain ⟨reading, nextId⟩ := reading
  cases reading with
  | error reports => rfl
  | ok program =>
    dsimp only
    split
    next world heq =>
      exact congrArg (fun analyzed => analyzed.1.store) heq.symm
    next world errors _ heq =>
      exact congrArg (fun analyzed => analyzed.1.store) heq.symm

/-- A run leaves the store of the machine that has stopped. -/
theorem store_runProgram {steps : Nat} {w w' : World} {program : Program}
    (h : w.runProgram host steps program = some w') :
    w'.store = ((w.start program).advance host steps).world.store := by
  obtain ⟨⟨c, w₁⟩, hexecute, rfl⟩ := Option.map_eq_some_iff.1 h
  obtain ⟨m, hrun, hdone⟩ := Option.bind_eq_some_iff.1 hexecute
  have hworld : m.world = w₁ := by
    split at hdone <;> cases hdone
    rfl
  have hflush : (w₁.flush host).store = w₁.store := by
    unfold World.flush
    split <;> rfl
  rw [World.start, Machine.advance_of_run hrun, hworld]
  exact hflush

/-- A program begins outside of all methods. -/
theorem housed_start {w : World} {program : Program} (h : g.Describes w.store) :
    (w.start program).Housed g := by
  refine ⟨h, h.global.1, fun f hf outer houter => ?_⟩
  obtain rfl : f = .sequence program globalScope := List.mem_singleton.1 hf
  obtain rfl : globalScope = outer := by simpa [Frame.outer?] using houter
  exact h.global.1

theorem housed_visits (hs : s.Sound) (hg : g.Describes s.world.store)
    (hm : s.VisitsWith g host source m g') : m.Housed g' := by
  obtain ⟨program, s', n, hprepare, rfl, rfl⟩ := hm
  have hstore := store_prepare s source
  obtain ⟨hsound, hbound⟩ := hs.prepare source
  rw [hprepare] at hstore hsound hbound
  have hstart : (s'.world.start program).Housed g := housed_start (hstore ▸ hg)
  exact hstart.advance (hsound.world.start (hbound program rfl)) host n

theorem describes_initial : Homes.initial.Describes Session.initial.world.store where
  scopes k hk := by
    obtain rfl : k = 0 := by
      have : k < 1 := hk
      omega
    refine ⟨fun v hv => ?_, fun outer houter => ?_⟩
    · cases hv
    · cases houter
  functions id hid := absurd hid (Nat.not_lt_zero id)
  methods cls name c hc := by
    rw [Session.initial, World.classOf_initial] at hc
    cases hc
  superclass cls hcls := absurd hcls (Nat.not_lt_zero cls)
  global := by
    refine ⟨⟨by decide, fun name hname => ?_⟩, rfl⟩
    rcases hname with rfl | rfl <;> rfl

/-- The record agrees with the store in every session that comes about. -/
theorem Traced.describes (h : s.Traced g) : g.Describes s.world.store := by
  induction h with
  | initial => exact describes_initial
  | @run s s' g host steps source outcome hs hrun ih =>
    unfold Session.run at hrun
    split at hrun
    next s₁ heq =>
      have hstore := store_prepare s source
      rw [heq] at hstore
      rw [homes_of_none heq]
      obtain ⟨-, rfl⟩ : outcome = .staticError ∧ s₁ = s' := by simpa [eq_comm] using hrun
      exact hstore ▸ ih
    next program s₁ heq =>
      obtain ⟨world, hworld, hs'⟩ := Option.map_eq_some_iff.1 hrun
      obtain ⟨-, rfl⟩ := Prod.mk.inj hs'
      have hvisits : s.VisitsWith g host source ((s₁.world.start program).advance host steps)
          (g.follow host steps (s₁.world.start program)) := ⟨program, s₁, steps, heq, rfl, rfl⟩
      have hhoused := housed_visits hs.reachable.sound ih hvisits
      rw [homes_of_some heq, store_runProgram hworld]
      exact hhoused.store
  | reset _ ih => exact ih

/-- What `this` and `super` stand for is fixed when a method is looked up and when its class is
declared.  Every session that comes about has a record of its runs.  Whenever `this` or `super` is
evaluated, the code belongs to a method, declared by one class and looked up on one instance.  Then
`this` is that instance; and `super` looks up from the superclass that this class was declared with,
and yields a method bound to that instance, unless there is none of the name. -/
theorem dispatch_fixed (hs : s.Reachable) :
    (∃ g, s.Traced g) ∧
    ∀ g host source m g', s.Traced g → s.VisitsWith g host source m g' →
      (∀ ref, m.control = .eval (.this ref) →
        ∃ home, g'.scopes m.scope = some home ∧ m.step host = m.yield (.object home.object)) ∧
      ∀ ref name, m.control = .eval (.super ref name) →
        ∃ home superclass, g'.scopes m.scope = some home ∧
          g'.superclass home.cls = some superclass ∧
          (m.world.store.classOf home.cls).superclass = some superclass ∧
          m.lookup? = some ⟨superclass, name.lexeme, home.object⟩ ∧
          (m.world.store.method? superclass name.lexeme = none →
            m.step host = m.raise (.ofToken name (.undefinedProperty name.lexeme))) ∧
          ∀ method, m.world.store.method? superclass name.lexeme = some method →
            ∃ id, (m.step host).control = .value (.function id) ∧
              (m.step host).world.store.IsBound id method home.object := by
  refine ⟨hs.traced, fun g host source m g' hg hm => ?_⟩
  have hhoused := housed_visits hs.sound hg.describes hm
  obtain ⟨program, s', n, hprepare, hmachine, -⟩ := hm
  obtain ⟨R, hsound⟩ := hs.sound.visits ⟨program, s', n, hprepare, hmachine⟩
  exact ⟨fun ref hcontrol => hhoused.this_step hsound hcontrol host,
    fun ref name hcontrol => hhoused.super_step hsound hcontrol host⟩

theorem visitsWith_of_isSome (s : Session) (g : Homes) (host : Host) (source : String) (n : Nat)
    (h : (s.prepare source).1.isSome = true) :
    s.VisitsWith g host source
      (((s.prepare source).2.world.start ((s.prepare source).1.getD [])).advance host n)
      (g.follow host n ((s.prepare source).2.world.start ((s.prepare source).1.getD []))) := by
  obtain ⟨program, hprogram⟩ := Option.isSome_iff_exists.1 h
  refine ⟨program, (s.prepare source).2, n, Prod.ext hprogram rfl, ?_⟩
  rw [hprogram]
  exact ⟨rfl, rfl⟩

/-- A method that the third class has from the second one returns a function, which is called when
the name of the first class stands for something else. -/
theorem dispatch_fixed_returned :
    let host : Host := ⟨fun _ => .ok ⟨0⟩, .unlimited⟩
    let source :=
      "class A{f(){}}class B<A{f(){fun k(){super.f();}return k;}}class C<B{}var h=C().f();A=0;h();"
    ∃ m g' ref name, Session.initial.VisitsWith .initial host source m g' ∧
      m.control = .eval (.super ref name) ∧ g'.scopes m.scope = some ⟨1, 0⟩ ∧
      (m.world.store.object 0).cls = 2 ∧ m.lookup? = some ⟨0, name.lexeme, 0⟩ ∧
      ∃ method id, m.world.store.method? 0 name.lexeme = some method ∧
        (m.step host).control = .value (.function id) ∧
        (m.step host).world.store.IsBound id method 0 := by
  intro host source
  have hfound : ∃ m g', Session.initial.VisitsWith .initial host source m g' ∧
      m.super?.map Token.lexeme = some "f" ∧ g'.scopes m.scope = some ⟨1, 0⟩ ∧
      g'.superclass 1 = some 0 ∧ (m.world.store.object 0).cls = 2 ∧
      (m.world.store.method? 0 "f").isSome = true := by
    refine ⟨_, _, visitsWith_of_isSome .initial .initial host source 38 ?_, ?_⟩ <;> decide +kernel
  obtain ⟨m, g', hm, hsuper, hscope, hsuperclass, hcls, hmethod⟩ := hfound
  obtain ⟨name, hname, hlexeme⟩ := Option.map_eq_some_iff.1 hsuper
  obtain ⟨ref, hcontrol⟩ := Machine.super?_cases hname
  obtain ⟨home, superclass, hhome, hsuperclass', -, hlookup, -, hbound⟩ :=
    ((dispatch_fixed .initial).2 _ _ _ _ _ .initial hm).2 ref name hcontrol
  obtain rfl : (⟨1, 0⟩ : Home) = home := by simpa [hscope] using hhome
  obtain rfl : 0 = superclass := by simpa [hsuperclass] using hsuperclass'
  rw [← hlexeme] at hmethod
  obtain ⟨method, hmethod⟩ := Option.isSome_iff_exists.1 hmethod
  obtain ⟨id, hid, hbound⟩ := hbound method hmethod
  exact ⟨m, g', ref, name, hm, hcontrol, hscope, hcls, hlookup, method, id, hmethod, hid, hbound⟩

end Session

end ClassScript
