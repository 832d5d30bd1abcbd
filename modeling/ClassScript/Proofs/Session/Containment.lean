import ClassScript.Proofs.Evaluation.Finishing

/-! # Faults stay inside the call

What goes wrong in a function, in an initializer or in a method that gives a text is reported there,
and the call ends with a result all the same.  Only the call itself can go wrong: what is called may
not be callable, or the number of arguments may not be right.
-/
namespace ClassScript

namespace Machine

variable {R : Recorded} {host : Host} {base : List Frame} {m m' : Machine} {faults : List Fault}
  {fn : FunctionContext} {ctx : Context}

/-- The call that the next step makes: what is called, where, with which arguments, and the frames
that wait for the result. -/
def calls? (m : Machine) : Option (Value × Token × List Value × List Frame) :=
  match m.control, m.frames with
  | .value callee, .callee paren [] :: base => some (callee, paren, [], base)
  | .value v, .argument callee paren before [] :: base =>
    some (callee, paren, (v :: before).reverse, base)
  | _, _ => none

/-- The value whose text the next step begins to find, and the frames that wait for the text. -/
def renders? (m : Machine) : Option (Value × List Frame) :=
  match m.control, m.frames with
  | .value v, .printValue :: fs => some (v, .printText :: fs)
  | .value v, .right operator (.string s) :: fs =>
    if operator.kind = .plus then some (v, .append s :: fs) else none
  | _, _ => none

/-- Evaluation has come back to the scope in which it began, and all that was raised on the way has
been reported, each fault once and in this order. -/
structure Contains (m : Machine) (faults : List Fault) (m' : Machine) : Prop where
  scope : m'.scope = m.scope
  reports : m'.world.log.reports.toList =
    m.world.log.reports.toList ++ faults.map Fault.report

section Call

variable {callee : Value} {paren : Token} {arguments : List Value}

theorem calls?_cases (h : m.calls? = some (callee, paren, arguments, base)) :
    (m.control = .value callee ∧ m.frames = .callee paren [] :: base ∧ arguments = []) ∨
      ∃ v before, m.control = .value v ∧ m.frames = .argument callee paren before [] :: base ∧
        arguments = (v :: before).reverse := by
  unfold calls? at h
  split at h
  next hcontrol hframes =>
    cases h
    exact .inl ⟨hcontrol, hframes, rfl⟩
  next v _ _ before _ hcontrol hframes =>
    cases h
    exact .inr ⟨v, before, hcontrol, hframes, rfl⟩
  next => cases h

/-- A call takes one frame, which waits for a value. -/
theorem Sound.calls (h : m.Sound R) (host : Host)
    (hcalls : m.calls? = some (callee, paren, arguments, base)) :
    (∃ v, m.control = .value v) ∧ (∃ f, m.frames = [f] ++ base ∧ f.outer? = none) ∧
      (∃ fn ctx, Machine.At R { m with frames := base } .value fn ctx) ∧
      m.step host = call host { m with frames := base } callee paren arguments := by
  rcases calls?_cases hcalls with
    ⟨hcontrol, hframes, rfl⟩ | ⟨v, before, hcontrol, hframes, rfl⟩
  all_goals
    refine ⟨⟨_, hcontrol⟩, ⟨_, hframes, rfl⟩, ?_, ?_⟩
    · cases h with
      | value _ hat =>
        obtain ⟨hworld, hfits, hstack⟩ := hat
        rw [hframes] at hstack
        cases hstack with
        | frame hf hfs =>
          cases hf
          exact ⟨_, _, hworld, hfits, hfs⟩
      | eval h' | exec h' | text h' | done h' | fault h' => simp [h'] at hcontrol
    · simp only [Machine.step, hcontrol, hframes]
      rfl

/-- A function that is called ends with a value. -/
theorem Finishes.apply {c : Closure} (hbase : m.frames = base)
    (hsound : (m.apply c arguments).Sound R)
    (h : Finishes host base (m.apply c arguments) faults m') : ∃ v, m'.control = .value v := by
  subst hbase
  exact h.body hsound rfl

theorem Finishes.call_function {id : Nat} (hat : m.At R .value fn ctx) (hbase : m.frames = base)
    (hlength : arguments.length = (m.world.store.closure id).declaration.arity)
    (h : Finishes host base (m.call host (.function id) paren arguments) faults m') :
    ∃ v, m'.control = .value v := by
  have hcall : m.call host (.function id) paren arguments =
      m.apply (m.world.store.closure id) arguments := by
    simp [Machine.call, Machine.arity?, hlength]
  rw [hcall] at h
  exact h.apply hbase (hat.apply (hat.world.store.functions id) hlength)

/-- A class makes a new instance of its own, whatever its initializer does. -/
theorem Finishes.construct {cls : Nat} (hbase : m.frames = base)
    (hsound : (m.construct cls arguments).Sound R)
    (h : Finishes host base (m.construct cls arguments) faults m') :
    m'.control = .value (.object m.world.store.nextObject) ∧
      m.world.store.nextObject < m'.world.store.nextObject ∧
      (m'.world.store.object m.world.store.nextObject).cls = cls := by
  subst hbase
  let made : Machine := { m with world := m.world.addObject cls }
  have hmade : m.world.store.nextObject < made.world.store.nextObject ∧
      (made.world.store.object m.world.store.nextObject).cls = cls := by
    simp [made, World.addObject, Store.addObject, Store.nextObject, Store.object,
      Array.getD_eq_getD_getElem?]
  unfold Machine.construct at h hsound
  cases hmethod : m.world.store.method? cls initializerName with
  | none =>
    simp only [hmethod] at h
    rw [h.eq_of_stopped rfl (.inl ⟨_, rfl⟩)]
    exact ⟨rfl, hmade⟩
  | some method =>
    simp only [hmethod] at h hsound
    obtain ⟨z, _, _, hbody, hreturn⟩ := h.through [_, _] rfl
    obtain ⟨v, hv⟩ := hbody.body hsound rfl
    -- the instance was there before its initializer began
    have hbegun := (((Onward.refl made).push (f := .construct m.world.store.nextObject)
      rfl).applyMethod method m.world.store.nextObject arguments).objects _ hmade.1
    have hkept := hbody.object hsound hbegun.1
    have hframes := hbody.frames
    obtain ⟨control, frames, scope, world⟩ := z
    cases hv
    cases hframes
    rw [hreturn.eq_of_stopped rfl (.inl ⟨_, rfl⟩)]
    exact ⟨rfl, hkept.1, hkept.2.trans (hbegun.2.trans hmade.2)⟩

theorem Finishes.call_cls {cls : Nat} (hat : m.At R .value fn ctx) (hbase : m.frames = base)
    (hlength : arguments.length = m.world.store.classArity cls)
    (h : Finishes host base (m.call host (.cls cls) paren arguments) faults m') :
    m'.control = .value (.object m.world.store.nextObject) ∧
      m.world.store.nextObject < m'.world.store.nextObject ∧
      (m'.world.store.object m.world.store.nextObject).cls = cls := by
  have hcall : m.call host (.cls cls) paren arguments = m.construct cls arguments := by
    simp [Machine.call, Machine.arity?, hlength]
  rw [hcall] at h
  exact h.construct hbase (hat.construct hlength)

/-- A call that ends with a fault is one of something that cannot be called, one with a wrong number
of arguments, or one of the clock when it cannot be read. -/
theorem Finishes.call_fault (hat : m.At R .value fn ctx) (hbase : m.frames = base)
    (h : Finishes host base (m.call host callee paren arguments) faults m') {f : Fault}
    (hf : m'.control = .fault f) :
    (f = .ofToken paren .notCallable ∧ m.arity? callee = none) ∨
      (∃ arity, f = .ofToken paren (.arity arity arguments.length) ∧
        m.arity? callee = some arity ∧ arguments.length ≠ arity) ∨
      ∃ id reason, f = .ofToken paren (.clock reason) ∧ callee = .native id ∧ arguments = [] ∧
        host.clock m.world.clockReads = .error reason := by
  cases harity : m.arity? callee with
  | none =>
    have hcall : m.call host callee paren arguments = m.raise (.ofToken paren .notCallable) := by
      simp [Machine.call, harity]
    rw [hcall] at h
    rw [h.eq_of_stopped hbase (.inr (.inr (.inr ⟨_, rfl⟩)))] at hf
    exact .inl ⟨(Control.fault.inj hf).symm, rfl⟩
  | some arity =>
    by_cases hlength : arguments.length = arity
    · subst hlength
      have hnot {v : Value} (hv : m'.control = .value v) : False := by simp [hf] at hv
      cases callee with
      | function id =>
        obtain ⟨v, hv⟩ := h.call_function hat hbase (Option.some.inj harity).symm
        exact (hnot hv).elim
      | native id =>
        -- the clock is all that the host supplies
        have hclock := hat.world.store.natives id
        have harguments : arguments = [] := by
          simpa [Machine.arity?, hclock, Native.arity, eq_comm] using harity
        have hcall : m.call host (.native id) paren arguments =
            m.applyNative host .clock paren arguments := by
          simp [Machine.call, harity, hclock]
        rw [hcall, Machine.applyNative] at h
        cases htime : host.clock m.world.clockReads with
        | ok now =>
          rw [htime] at h
          rw [h.eq_of_stopped hbase (.inl ⟨_, rfl⟩)] at hf
          cases hf
        | error reason =>
          rw [htime] at h
          rw [h.eq_of_stopped hbase (.inr (.inr (.inr ⟨_, rfl⟩)))] at hf
          exact .inr (.inr ⟨id, reason, (Control.fault.inj hf).symm, rfl, harguments, rfl⟩)
      | cls id => exact (hnot (h.call_cls hat hbase (Option.some.inj harity).symm).1).elim
      | _ => cases harity
    · have hcall : m.call host callee paren arguments =
          m.raise (.ofToken paren (.arity arity arguments.length)) := by
        simp [Machine.call, harity, hlength]
      rw [hcall] at h
      rw [h.eq_of_stopped hbase (.inr (.inr (.inr ⟨_, rfl⟩)))] at hf
      exact .inr (.inl ⟨arity, (Control.fault.inj hf).symm, rfl, hlength⟩)

end Call

section Render

variable {v : Value}

theorem renders?_cases (h : m.renders? = some (v, base)) :
    m.control = .value v ∧
      ((∃ fs, m.frames = .printValue :: fs ∧ base = .printText :: fs) ∨
        ∃ operator s fs, m.frames = .right operator (.string s) :: fs ∧ operator.kind = .plus ∧
          base = .append s :: fs) := by
  unfold renders? at h
  split at h
  next hcontrol hframes =>
    cases h
    exact ⟨hcontrol, .inl ⟨_, hframes, rfl⟩⟩
  next hcontrol hframes =>
    split at h
    next hplus =>
      cases h
      exact ⟨hcontrol, .inr ⟨_, _, _, hframes, hplus, rfl⟩⟩
    next => cases h
  next => cases h

theorem Sound.renders (h : m.Sound R) (host : Host) (hrenders : m.renders? = some (v, base)) :
    (∃ fn ctx, Machine.At R { m with frames := base } .text fn ctx) ∧
      m.step host = render { m with frames := base } v := by
  obtain ⟨hcontrol, hwaiting⟩ := renders?_cases hrenders
  cases h with
  | value _ hat =>
    obtain ⟨hworld, hfits, hstack⟩ := hat
    rcases hwaiting with ⟨fs, hframes, rfl⟩ | ⟨operator, s, fs, hframes, hplus, rfl⟩
    · rw [hframes] at hstack
      constructor
      · cases hstack with
        | frame hf hfs =>
          cases hf
          exact ⟨_, _, hworld, hfits, .frame .printText hfs⟩
      · simp only [Machine.step, hcontrol, hframes]
        rfl
    · rw [hframes] at hstack
      constructor
      · cases hstack with
        | frame hf hfs =>
          cases hf
          exact ⟨_, _, hworld, hfits, .frame .append hfs⟩
      · simp only [Machine.step, hcontrol, hframes, Machine.takeValue, Machine.binary, hplus]
        rfl
  | eval h' | exec h' | text h' | done h' | fault h' => simp [h'] at hcontrol

/-- What begins to find a text is done with it where it is, whatever waits below. -/
theorem render_above (z : Machine) (v : Value) (hbase : z.frames = base) :
    ∃ above, (z.render v).frames = above ++ base ∧
      outward { z.render v with frames := above } = z.scope := by
  let z₀ : Machine := { z with frames := [] }
  let σ : Surroundings := { distances := z.world.distances, before := z.world.log }
  have halone : z₀.unreported.inside σ = z₀ := inside_unreported z₀ z.world.distances []
  have hbelow : z₀.unreported.inside { σ with below := base } = z := by
    apply (inside_unreported z₀ z.world.distances base).trans
    rw [← hbase]
    rfl
  have hrender : z.render v = (z₀.unreported.render v).inside { σ with below := base } := by
    rw [inside_render, hbelow]
  have hrender₀ : z₀.render v = (z₀.unreported.render v).inside σ := by
    rw [inside_render, halone]
  refine ⟨(z₀.render v).frames, ?_, ?_⟩
  · rw [hrender, hrender₀]
    simp [Machine.inside, σ]
  · have houtward : outward (z₀.render v) = z.scope := ((Onward.refl z₀).render v).outward
    rw [← houtward, hrender, hrender₀]
    rfl

theorem pending_render (z : Machine) (v : Value) : (z.render v).pending = [] := by
  unfold Machine.render
  split
  · split
    · rfl
    · rfl
  · rfl

/-- Every value has a text, whatever the method that gives it does. -/
theorem Finishes.render (hat : m.At R .text fn ctx) (hbase : m.frames = base)
    (h : Finishes host base (m.render v) faults m') : ∃ text, m'.control = .text text := by
  subst hbase
  have hsound : (m.render v).Sound R := hat.render
  have hplain (text : String) (h : Finishes host m.frames (m.yieldText text) faults m') :
      ∃ text, m'.control = .text text :=
    ⟨text, by rw [h.eq_of_stopped rfl (.inr (.inl ⟨_, rfl⟩))]; rfl⟩
  unfold Machine.render at h hsound
  cases v with
  | object id =>
    simp only at h hsound
    cases hmethod : m.world.store.textMethod? id with
    | none =>
      simp only [hmethod] at h
      exact hplain _ h
    | some method =>
      simp only [hmethod] at h hsound
      obtain ⟨z, _, _, hbody, hreturn⟩ := h.through [_, _] rfl
      obtain ⟨v, hv⟩ := hbody.body hsound rfl
      have hframes := hbody.frames
      obtain ⟨control, frames, scope, world⟩ := z
      cases hv
      cases hframes
      rw [hreturn.eq_of_stopped rfl (.inr (.inl ⟨_, rfl⟩))]
      exact ⟨_, rfl⟩
  | _ => exact hplain _ h

end Render

/-- A block is done in the end. -/
theorem Finishes.block {body : List Stmt} (h : Finishes host m.frames m faults m')
    (hsound : m.Sound R) (hcontrol : m.control = .exec (.block body)) :
    ∃ c, m'.control = .done c := by
  cases h with
  | now _ hfinal => simp [Machine.isFinal, hcontrol] at hfinal
  | later _ _ hrest =>
    refine hrest.list hsound.step [] (?_ : _ = .sequence body m.scope :: m.frames)
    simp only [Machine.step, hcontrol]
    rfl

/-- What ends without a fault has reported all that was raised. -/
theorem Finishes.reported (h : Finishes host base m faults m') (hsound : m.Sound R)
    (hbegun : m.pending = []) (hended : m'.pending = []) :
    m'.world.log.reports.toList = m.world.log.reports.toList ++ faults.map Fault.report := by
  have hreports := h.reports hsound
  rw [hbegun, hended] at hreports
  simpa using hreports

end Machine

namespace Session

open Machine (Finishes)

/-- In every run of a reachable session, calls and all that runs in them end as follows, if they
end.  A function with the right number of arguments yields a value.  A class makes a new instance of
its own.  Every value that is printed or appended has a text.  A block is done.  All faults that are
raised on the way have then been reported, each once and in the order in which they were raised.
Only a call of something that cannot be called, with a wrong number of arguments, or of the clock
when it cannot be read, ends with a fault.  And whatever way an expression, a statement or a call
ends, it ends in the scope in which it began. -/
theorem faults_contained {s : Session} (hs : s.Reachable) {host : Host} {source : String}
    {m : Machine} (hm : s.Visits host source m) :
    (∀ callee paren arguments base, m.calls? = some (callee, paren, arguments, base) →
      ∀ faults m', Finishes host base m faults m' →
        m'.scope = m.scope ∧
        (∀ id, callee = .function id →
          arguments.length = (m.world.store.closure id).declaration.arity →
          (∃ v, m'.control = .value v) ∧ m.Contains faults m') ∧
        (∀ cls, callee = .cls cls → arguments.length = m.world.store.classArity cls →
          (∃ object, m'.control = .value (.object object) ∧ m.world.store.nextObject ≤ object ∧
            object < m'.world.store.nextObject ∧ (m'.world.store.object object).cls = cls) ∧
          m.Contains faults m') ∧
        ∀ f, m'.control = .fault f →
          (f = .ofToken paren .notCallable ∧ m.arity? callee = none) ∨
          (∃ arity, f = .ofToken paren (.arity arity arguments.length) ∧
            m.arity? callee = some arity ∧ arguments.length ≠ arity) ∨
          ∃ id reason, f = .ofToken paren (.clock reason) ∧ callee = .native id ∧
            arguments = [] ∧ host.clock m.world.clockReads = .error reason) ∧
    (∀ v base, m.renders? = some (v, base) →
      ∀ faults m', Finishes host base (m.step host) faults m' →
      (∃ text, m'.control = .text text) ∧ m.Contains faults m') ∧
    (∀ body, m.control = .exec (.block body) → ∀ faults m', Finishes host m.frames m faults m' →
      (∃ c, m'.control = .done c) ∧ m.Contains faults m') ∧
    ∀ faults m', (∃ e, m.control = .eval e) ∨ (∃ s, m.control = .exec s) →
      Finishes host m.frames m faults m' → m'.scope = m.scope := by
  obtain ⟨R, hsound⟩ := hs.sound.visits hm
  refine ⟨fun callee paren arguments base hcalls faults m' h => ?_,
    fun v base hrenders faults m' h => ?_, fun body hcontrol faults m' h => ?_,
    fun faults m' _ h => h.scope hsound [] rfl⟩
  · obtain ⟨⟨u, hu⟩, ⟨f, hframes, hf⟩, ⟨fn, ctx, hat⟩, hstep⟩ := hsound.calls host hcalls
    have hcall := h.after hframes
    rw [hstep] at hcall
    obtain ⟨faults', hcall⟩ := hcall
    have hscope : m'.scope = m.scope := by
      rw [h.scope hsound [f] hframes]
      simp [Machine.outward, hf]
    have hcontains {v : Value} (hv : m'.control = .value v) : m.Contains faults m' :=
      ⟨hscope, h.reported hsound (by simp [Machine.pending, hu]) (by simp [Machine.pending, hv])⟩
    refine ⟨hscope, ?_, ?_, fun f hf => hcall.call_fault hat rfl hf⟩
    · rintro id rfl hlength
      obtain ⟨v, hv⟩ := hcall.call_function hat rfl hlength
      exact ⟨⟨v, hv⟩, hcontains hv⟩
    · rintro cls rfl hlength
      obtain ⟨hv, hnew, hcls⟩ := hcall.call_cls hat rfl hlength
      exact ⟨⟨_, hv, Nat.le_refl _, hnew, hcls⟩, hcontains hv⟩
  · obtain ⟨⟨fn, ctx, hat⟩, hstep⟩ := hsound.renders host hrenders
    have hsound' : (m.step host).Sound R := hsound.step
    rw [hstep] at h hsound'
    obtain ⟨text, htext⟩ := h.render hat rfl
    obtain ⟨above, habove, houtward⟩ := Machine.render_above { m with frames := base } v rfl
    have hreported := h.reported hsound' (Machine.pending_render _ v)
      (by simp [Machine.pending, htext])
    rw [((Machine.Onward.refl { m with frames := base }).render v).log] at hreported
    exact ⟨⟨text, htext⟩, (h.scope hsound' above habove).trans houtward, hreported⟩
  · obtain ⟨c, hc⟩ := h.block hsound hcontrol
    exact ⟨⟨c, hc⟩, h.scope hsound [] rfl,
      h.reported hsound (by simp [Machine.pending, hcontrol]) (by simp [Machine.pending, hc])⟩

/-- An inherited initializer raises a fault and returns, and the call yields the new instance. -/
theorem faults_contained_initializer :
    let host : Host := ⟨fun _ => .ok ⟨0⟩, .unlimited⟩
    let source := "class A{init(){nil.x;return;}}class B<A{}B();"
    ∃ m paren base faults m', Session.initial.Visits host source m ∧
      m.calls? = some (.cls 1, paren, [], base) ∧ Finishes host base m faults m' ∧
      faults.map (fun f => f.report.message) = ["Only instances have properties."] ∧
      ∃ object, m'.control = .value (.object object) ∧ (m'.world.store.object object).cls = 1 := by
  intro host source
  have hm := visits_of_isSome .initial host source 8 (by decide +kernel)
  generalize hmachine : Machine.advance host 8 _ = m at hm
  have hcallee : m.calls?.map (fun call => (call.1, call.2.2.1)) = some (.cls 1, []) := by
    rw [← hmachine]
    decide +kernel
  obtain ⟨⟨callee, paren, arguments, base⟩, hcalls, hcall⟩ := Option.map_eq_some_iff.1 hcallee
  obtain ⟨rfl, rfl⟩ := Prod.mk.inj hcall
  have hlog : m.world.log.reports = #[] := by
    rw [← hmachine]
    decide +kernel
  have hended : (Machine.run host 40 { m with frames := m.frames.take 1 }).map
      (fun z => z.world.log.reports.map Report.message) =
        some #["Only instances have properties."] := by
    rw [← hmachine]
    decide +kernel
  obtain ⟨z, hz, hmessages⟩ := Option.map_eq_some_iff.1 hended
  have hframes : m.frames = m.frames.take 1 ++ base := by
    rcases Machine.calls?_cases hcalls with ⟨-, hframes, -⟩ | ⟨_, _, -, hframes, -⟩ <;>
      simp [hframes]
  obtain ⟨faults, h⟩ := (Machine.finishes_iff hframes).2 ⟨z, ⟨40, hz⟩, rfl⟩
  obtain ⟨-, -, hcls, -⟩ := (faults_contained .initial hm).1 _ _ _ _ hcalls _ _ h
  obtain ⟨⟨object, hv, -, -, hobject⟩, hcontains⟩ := hcls 1 rfl (by rw [← hmachine]; decide +kernel)
  refine ⟨m, paren, base, faults, _, hm, hcalls, h, ?_, object, hv, hobject⟩
  have hreports := congrArg (List.map Report.message) hcontains.reports
  simp only [hlog, List.map_append, List.map_map] at hreports
  rw [← Array.toList_map] at hreports
  exact hreports.symm.trans (congrArg Array.toList hmessages)

/-- A clock that cannot be read is a fault of the call, and the next statement is executed. -/
example : (Session.initial.run ⟨fun _ => .error "no time", .unlimited⟩ 20 "clock();print 1;").map
    (fun r => (r.1, r.2.world.log.messages, r.2.world.output.text)) =
      some (.runtimeError, #["Clock error: no time"], "1\n") := by
  decide +kernel

end Session

end ClassScript
