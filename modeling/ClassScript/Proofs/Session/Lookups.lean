import ClassScript.Proofs.Session.Reachable

/-! # What references find

The distances that the analysis records and the scopes that evaluation opens agree.  In every
reachable session a reference with a distance finds a scope there, `this` and `super` always stand
for something, and until something goes wrong a name that is read is bound.
-/
namespace ClassScript

open Store (Fits)

namespace Machine

/-- The reference that the machine is about to read. -/
def read? (m : Machine) : Option Reference :=
  match m.control with
  | .eval (.variable ref) | .eval (.this ref) | .eval (.super ref _) => some ref
  | .exec (.cls _ superclass _) => superclass
  | _ => none

/-- The reference of the assignment that the machine begins or has the value for. -/
def rebound? (m : Machine) : Option Reference :=
  match m.control, m.frames with
  | .eval (.assign ref _), _ => some ref
  | .value _, .assign ref :: _ => some ref
  | _, _ => none

variable {R : Recorded} {m : Machine} {ref : Reference}

theorem Sound.ofEval (h : m.Sound R) {e : Expr} (hcontrol : m.control = .eval e) :
    ∃ fn ctx, m.At R .value fn ctx ∧ e.Bound R ctx := by
  cases h with
  | eval hcontrol' hat he =>
    obtain rfl : _ = e := by simpa [hcontrol'] using hcontrol
    exact ⟨_, _, hat, he⟩
  | exec h' | value h' | text h' | done h' | fault h' => simp [h'] at hcontrol

theorem Sound.ofSuperclass (h : m.Sound R) {name : Token} {methods : List FunctionDecl}
    (hcontrol : m.control = .exec (.cls name (some ref) methods)) :
    ∃ ctx : Context, m.world.Sound R ∧ Fits m.world.Clean m.world.store ctx.scopes m.scope ∧
      ref.Resolves R ctx.scopes ∧ ctx.scopes.Readable ref.name.lexeme := by
  cases h with
  | exec hcontrol' hworld hfits hstack hs =>
    obtain rfl : _ = Stmt.cls name (some ref) methods := by simpa [hcontrol'] using hcontrol
    exact ⟨_, hworld, hfits, hs.2.2.1, hs.2.2.2.1⟩
  | eval h' | value h' | text h' | done h' | fault h' => simp [h'] at hcontrol

theorem Sound.ofRebind (h : m.Sound R) {v : Value} {fs : List Frame}
    (hcontrol : m.control = .value v) (hframes : m.frames = .assign ref :: fs) :
    ∃ fn ctx, m.At R .value fn ctx ∧ ref.Resolves R ctx.scopes := by
  cases h with
  | value _ hat =>
    have hstack := hat.stack
    rw [hframes] at hstack
    cases hstack with
    | frame hf _ =>
      cases hf with
      | assign href => exact ⟨_, _, hat, href⟩
  | eval h' | exec h' | text h' | done h' | fault h' => simp [h'] at hcontrol

theorem read?_cases (h : m.read? = some ref) :
    m.control = .eval (.variable ref) ∨ m.control = .eval (.this ref) ∨
      (∃ method, m.control = .eval (.super ref method)) ∨
      ∃ name methods, m.control = .exec (.cls name (some ref) methods) := by
  unfold read? at h
  split at h <;> simp_all

theorem rebound?_cases (h : m.rebound? = some ref) :
    (∃ e, m.control = .eval (.assign ref e)) ∨
      ∃ v fs, m.control = .value v ∧ m.frames = .assign ref :: fs := by
  unfold rebound? at h
  split at h <;> simp_all

/-- The distance recorded for a reference is that of its name in the scopes that are open. -/
theorem Sound.resolved (h : m.Sound R) (href : m.read? = some ref ∨ m.rebound? = some ref) :
    ∃ Γ, Fits m.world.Clean m.world.store Γ m.scope ∧
      m.world.distance? ref = Scopes.distance? Γ ref.name.lexeme := by
  rcases href with hread | hrebound
  · rcases read?_cases hread with
      hcontrol | hcontrol | ⟨method, hcontrol⟩ | ⟨name, methods, hcontrol⟩
    · obtain ⟨_, ctx, hat, he⟩ := h.ofEval hcontrol
      exact ⟨ctx.scopes, hat.fits, hat.distance? he.1.2⟩
    · obtain ⟨_, ctx, hat, hname, -, d, hd, hrecorded⟩ := h.ofEval hcontrol
      exact ⟨ctx.scopes, hat.fits, by rw [hat.distance? hrecorded, hname, hd]⟩
    · obtain ⟨_, ctx, hat, hname, -, d, -, hd, hrecorded⟩ := h.ofEval hcontrol
      exact ⟨ctx.scopes, hat.fits, by rw [hat.distance? hrecorded, hname, hd]⟩
    · obtain ⟨ctx, hworld, hfits, href, -⟩ := h.ofSuperclass hcontrol
      exact ⟨ctx.scopes, hfits, hworld.recorded _ _ href.2⟩
  · rcases rebound?_cases hrebound with ⟨e, hcontrol⟩ | ⟨v, fs, hcontrol, hframes⟩
    · obtain ⟨_, ctx, hat, he⟩ := h.ofEval hcontrol
      exact ⟨ctx.scopes, hat.fits, hat.distance? he.1.2⟩
    · obtain ⟨_, ctx, hat, href⟩ := h.ofRebind hcontrol hframes
      exact ⟨ctx.scopes, hat.fits, hat.distance? href.2⟩

/-- As long as nothing has gone wrong, what is read is there. -/
theorem Sound.readable (h : m.Sound R) (hclean : m.world.Clean) (hread : m.read? = some ref)
    {d : Nat} (hd : m.world.distance? ref = some d) :
    ∃ v, m.world.store.valueAt? m.scope d ref.name.lexeme = some v := by
  rcases read?_cases hread with
    hcontrol | hcontrol | ⟨method, hcontrol⟩ | ⟨name, methods, hcontrol⟩
  · obtain ⟨_, ctx, hat, he⟩ := h.ofEval hcontrol
    rw [hat.distance? he.1.2] at hd
    exact hat.fits.readable hclean hd he.2
  · obtain ⟨_, ctx, hat, hname, -, d', hd', hrecorded⟩ := h.ofEval hcontrol
    obtain rfl : d' = d := by simpa [hat.distance? hrecorded] using hd
    obtain ⟨object, hobject⟩ := hat.fits.this hd'
    exact ⟨_, by rw [hname, hobject]⟩
  · obtain ⟨_, ctx, hat, hname, -, d', -, hd', hrecorded⟩ := h.ofEval hcontrol
    obtain rfl : d' + 1 = d := by simpa [hat.distance? hrecorded] using hd
    obtain ⟨cls, hcls⟩ := hat.fits.super hd'
    exact ⟨_, by rw [hname, hcls]⟩
  · obtain ⟨ctx, hworld, hfits, href, hreadable⟩ := h.ofSuperclass hcontrol
    have hdistance : m.world.distance? ref = ctx.scopes.distance? ref.name.lexeme :=
      hworld.recorded _ _ href.2
    rw [hdistance] at hd
    exact hfits.readable hclean hd hreadable

/-- `super` yields a method, or the superclass has none of the name. -/
theorem Sound.super_step (h : m.Sound R) {method : Token}
    (hcontrol : m.control = .eval (.super ref method)) (host : Host) :
    (∃ v, (m.step host).control = .value v) ∨
      (m.step host).control = .fault (.ofToken method (.undefinedProperty method.lexeme)) := by
  obtain ⟨_, ctx, hat, he⟩ := h.ofEval hcontrol
  obtain ⟨cls, object, hparts⟩ := hat.superParts he
  simp only [Machine.step, hcontrol, Machine.evalStep, Machine.superMethod, hparts]
  split
  · exact .inr rfl
  · exact .inl ⟨_, rfl⟩

/-- A name that is found is not reported to be undefined. -/
theorem Sound.step_of_found (h : m.Sound R) (hread : m.read? = some ref) {d : Nat} {v : Value}
    (hd : m.world.distance? ref = some d)
    (hv : m.world.store.valueAt? m.scope d ref.name.lexeme = some v) (host : Host) (line : Nat)
    (name : String) : (m.step host).control ≠ .fault (.runtime line (.undefinedVariable name)) := by
  have hfound : m.world.read m.scope ref = .ok v := by
    simp [World.read, hd, Store.valueAt, hv, Store.orUndefined]
  rcases read?_cases hread with
    hcontrol | hcontrol | ⟨method, hcontrol⟩ | ⟨name, methods, hcontrol⟩
  · simp [Machine.step, hcontrol, Machine.evalStep, hfound, Machine.settle, Machine.yield]
  · simp [Machine.step, hcontrol, Machine.evalStep, hfound, Machine.settle, Machine.yield]
  · rcases h.super_step hcontrol host with ⟨v, hv⟩ | hfault
    · simp [hv]
    · simp [hfault, Fault.ofToken]
  · simp only [Machine.step, hcontrol, Machine.execStep, Machine.superclass, hfound]
    cases v with
    | cls i =>
      simp [Bind.bind, Except.bind, Pure.pure, Except.pure, Machine.declareClass]
    | _ => simp [Bind.bind, Except.bind, Machine.raise, Fault.ofToken]

/-- `this` yields an instance. -/
theorem Sound.this_step (h : m.Sound R) (hcontrol : m.control = .eval (.this ref)) (host : Host) :
    ∃ object, m.step host = m.yield (.object object) := by
  obtain ⟨_, ctx, hat, he⟩ := h.ofEval hcontrol
  obtain ⟨object, hobject⟩ := hat.read_this he
  exact ⟨object, by simp [Machine.step, hcontrol, Machine.evalStep, hobject, Machine.settle]⟩

end Machine

namespace RuntimeCause

theorem message_undefinedVariable (name : String) :
    (undefinedVariable name).message = "Undefined variable '" ++ name ++ "'." := rfl

theorem message_undefinedProperty (name : String) :
    (undefinedProperty name).message = "Undefined property '" ++ name ++ "'." := rfl

theorem message_arity (expected given : Nat) :
    (arity expected given).message =
      "Expected " ++ toString expected ++ " arguments but got " ++ toString given ++ "." := rfl

theorem message_clock (reason : String) : (clock reason).message = "Clock error: " ++ reason := rfl

theorem undefinedVariable_injective {name other : String}
    (h : (undefinedVariable name).message = (undefinedVariable other).message) : name = other := by
  rw [message_undefinedVariable, message_undefinedVariable, ← String.toList_inj,
    String.toList_append, String.toList_append, String.toList_append, String.toList_append] at h
  have hlist := List.append_cancel_right h
  exact String.toList_injective (List.append_cancel_left hlist)

/-- What is never reported. -/
def impossibleMessages : List String :=
  ["Unresolved 'super'.", "'super' used without an instance.",
    "Initializer is not bound to an instance.", "Undefined variable 'this'.",
    "Undefined variable 'super'."]

/-- The messages of the impossible causes are those of no possible one. -/
theorem message_of_possible {cause : RuntimeCause} (h : ¬cause.Impossible) :
    cause.message ∉ impossibleMessages := by
  unfold impossibleMessages
  cases cause with
  | superUnresolved | superWithoutObject | initializerUnbound | native => exact absurd trivial h
  | undefinedVariable name =>
    intro hmem
    simp only [List.mem_cons, List.not_mem_nil, or_false] at hmem
    rcases hmem with heq | heq | heq | heq | heq
    · simp [message_undefinedVariable, ← String.toList_inj] at heq
    · simp [message_undefinedVariable, ← String.toList_inj] at heq
    · simp [message_undefinedVariable, ← String.toList_inj] at heq
    · exact h (.inl (undefinedVariable_injective (heq.trans (by decide))))
    · exact h (.inr (undefinedVariable_injective (heq.trans (by decide))))
  | undefinedProperty name => simp [message_undefinedProperty, ← String.toList_inj]
  | arity expected given => simp [message_arity, ← String.toList_inj]
  | clock reason => simp [message_clock, ← String.toList_inj]
  | _ => decide

end RuntimeCause

theorem World.Sound.messages {R : Recorded} {w : World} (h : w.Sound R) {line : Nat}
    {message : String} (hr : Report.runtime line message ∈ w.log.reports) :
    message ∉ RuntimeCause.impossibleMessages := by
  obtain ⟨cause, hcause, rfl⟩ := h.log _ hr line message rfl
  exact RuntimeCause.message_of_possible hcause

namespace Session

/-- The scopes that evaluation opens are those that the analysis saw.  In every run of a reachable
session, a reference that has a distance finds a scope other than the global one there; `this` is an
instance; and `super` has a distance, at which there is a class, and one scope inside there is an
instance.  So the messages for the other cases are never reported. -/
theorem scopes_agree {s : Session} (hs : s.Reachable) :
    (∀ line message, Report.runtime line message ∈ s.world.log.reports →
      message ∉ RuntimeCause.impossibleMessages) ∧
    ∀ host source m, s.Visits host source m →
      (∀ ref d, m.read? = some ref ∨ m.rebound? = some ref → m.world.distance? ref = some d →
        ∃ j, m.world.store.scopeAt? m.scope d = some j ∧ j ≠ globalScope) ∧
      (∀ ref, m.control = .eval (.this ref) →
        ∃ object, m.step host = m.yield (.object object)) ∧
      (∀ ref method, m.control = .eval (.super ref method) →
        (∃ d cls object, m.world.distance? ref = some (d + 1) ∧
          m.world.store.valueAt? m.scope (d + 1) "super" = some (.cls cls) ∧
          m.world.store.valueAt? m.scope d "this" = some (.object object)) ∧
        ∀ line, (m.step host).control ≠ .fault (.runtime line .superclassNotClass)) ∧
      ∀ line message, Report.runtime line message ∈ m.world.log.reports →
        message ∉ RuntimeCause.impossibleMessages := by
  refine ⟨fun line message hr => hs.sound.world.messages hr, fun host source m hm => ?_⟩
  obtain ⟨R, hsound⟩ := hs.sound.visits hm
  refine ⟨fun ref d href hd => ?_, fun ref hcontrol => hsound.this_step hcontrol host,
    fun ref method hcontrol => ⟨?_, fun line => ?_⟩, fun line message hr =>
      hsound.world.messages hr⟩
  · obtain ⟨Γ, hfits, hdistance⟩ := hsound.resolved href
    obtain ⟨-, j, -, -, hj, hne, -⟩ := hfits.distance (hdistance.symm.trans hd)
    exact ⟨j, hj, hne⟩
  · obtain ⟨_, _, hat, he⟩ := hsound.ofEval hcontrol
    exact hat.superValues he
  · rcases hsound.super_step hcontrol host with ⟨v, hv⟩ | hfault
    · simp [hv]
    · simp [hfault, Fault.ofToken]

theorem visits_of_isSome (s : Session) (host : Host) (source : String) (n : Nat)
    (h : (s.prepare source).1.isSome = true) :
    s.Visits host source
      (((s.prepare source).2.world.start ((s.prepare source).1.getD [])).advance host n) := by
  obtain ⟨program, hprogram⟩ := Option.isSome_iff_exists.1 h
  refine ⟨program, (s.prepare source).2, n, Prod.ext hprogram rfl, ?_⟩
  rw [hprogram]
  rfl

theorem ofSource_of_isSome {n : Nat} {source : String}
    (h : (Program.ofSource n source).1.toOption.isSome = true) :
    Program.ofSource n source =
      (.ok ((Program.ofSource n source).1.toOption.getD []), (Program.ofSource n source).2) := by
  generalize Program.ofSource n source = reading at h
  obtain ⟨_ | program, n'⟩ := reading
  · cases h
  · rfl

theorem scopes_agree_subclass :
    ∃ m ref j, Session.initial.Visits ⟨fun _ => .ok ⟨0⟩, .unlimited⟩
        "class A{f(){}}class B<A{f(){super.f();}}B().f();" m ∧
      m.read? = some ref ∧ ref.name.lexeme = "super" ∧ m.world.distance? ref = some 2 ∧
      m.world.store.scopeAt? m.scope 2 = some j ∧ j ≠ globalScope := by
  have hm := visits_of_isSome .initial ⟨fun _ => .ok ⟨0⟩, .unlimited⟩
    "class A{f(){}}class B<A{f(){super.f();}}B().f();" 16 (by decide +kernel)
  let ref : Reference := ⟨{ kind := .superWord, lexeme := "super", line := 1 }, 1⟩
  obtain ⟨j, hj, hne⟩ := ((scopes_agree .initial).2 _ _ _ hm).1 ref 2 (.inl (by decide +kernel))
    (by decide +kernel)
  exact ⟨_, ref, j, hm, by decide +kernel, rfl, by decide +kernel, hj, hne⟩

/-- Until something goes wrong at run time, what is read at a distance is bound there: a name in the
scopes of a function or a block is not read before its declaration was executed. -/
theorem reads_defined {s : Session} (hs : s.Reachable) {host : Host} {source : String} {m : Machine}
    (hm : s.Visits host source m) (hclean : m.world.Clean) {ref : Reference} {d : Nat}
    (hread : m.read? = some ref) (hd : m.world.distance? ref = some d) :
    (∃ v, m.world.store.valueAt? m.scope d ref.name.lexeme = some v) ∧
      ∀ line name, (m.step host).control ≠ .fault (.runtime line (.undefinedVariable name)) := by
  obtain ⟨R, hsound⟩ := hs.sound.visits hm
  obtain ⟨v, hv⟩ := hsound.readable hclean hread hd
  exact ⟨⟨v, hv⟩, hsound.step_of_found hread hd hv host⟩

theorem reads_defined_block :
    ∃ m v, Session.initial.Visits ⟨fun _ => .ok ⟨0⟩, .unlimited⟩ "{var a;{print a;}}" m ∧
      m.world.Clean ∧ m.world.store.valueAt? m.scope 1 "a" = some v := by
  have hm := visits_of_isSome .initial ⟨fun _ => .ok ⟨0⟩, .unlimited⟩ "{var a;{print a;}}" 8
    (by decide +kernel)
  let ref : Reference := ⟨{ kind := .identifier, lexeme := "a", line := 1 }, 0⟩
  obtain ⟨⟨v, hv⟩, -⟩ := @reads_defined .initial .initial _ _ _ hm (by decide +kernel) ref 1
    (by decide +kernel) (by decide +kernel)
  exact ⟨_, v, hm, by decide +kernel, hv⟩

end Session

end ClassScript
