import ClassScript.Proofs.Evaluation.Homes

/-! # What a step leaves alone

The frames of a machine lead it back to a scope, and no step changes which one.  Nothing is reported
except when a fault meets a statement list, and an instance stays one of its class.
-/
namespace ClassScript

namespace Machine

/-- The scope in which evaluation will be once all frames are done. -/
def outward (m : Machine) : Nat := m.frames.foldl (fun k f => f.outer?.getD k) m.scope

/-- A machine that has gone on from another one without a report. -/
structure Onward (m m' : Machine) : Prop where
  outward : m'.outward = m.outward
  log : m'.world.log = m.world.log
  objects : ∀ id, id < m.world.store.nextObject → id < m'.world.store.nextObject ∧
    (m'.world.store.object id).cls = (m.world.store.object id).cls

namespace Onward

variable {m m' m'' : Machine} {host : Host}

theorem refl (m : Machine) : Onward m m := ⟨rfl, rfl, fun _ hid => ⟨hid, rfl⟩⟩

theorem trans (h : Onward m m') (h' : Onward m' m'') : Onward m m'' where
  outward := h'.outward.trans h.outward
  log := h'.log.trans h.log
  objects id hid := by
    obtain ⟨hlt, hcls⟩ := h.objects id hid
    obtain ⟨hlt', hcls'⟩ := h'.objects id hlt
    exact ⟨hlt', hcls'.trans hcls⟩

theorem push (h : Onward m m') {f : Frame} (hf : f.outer? = none) : Onward m (m'.push f) := by
  refine h.trans ⟨?_, rfl, fun _ hid => ⟨hid, rfl⟩⟩
  simp [Machine.outward, Machine.push, hf]

theorem control (h : Onward m m') (c : Control) : Onward m { m' with control := c } :=
  ⟨h.outward, h.log, h.objects⟩

/-- A frame that waits in the current scope is taken away. -/
theorem pop {f : Frame} {fs : List Frame} (hframes : m.frames = f :: fs) (hf : f.outer? = none) :
    Onward m { m with frames := fs } := by
  refine ⟨?_, rfl, fun _ hid => ⟨hid, rfl⟩⟩
  simp [Machine.outward, hframes, hf]

/-- The world changes in other respects. -/
theorem world (h : Onward m m') {w : World} {c : Control} (hlog : w.log = m'.world.log)
    (hobjects : w.store.objects = m'.world.store.objects) :
    Onward m { m' with control := c, world := w } := by
  refine h.trans ⟨rfl, hlog, fun id hid => ?_⟩
  rw [Store.nextObject, Store.object, hobjects]
  exact ⟨hid, rfl⟩

theorem settle (h : Onward m m') (result : Except Fault Value) : Onward m (m'.settle result) := by
  cases result with
  | ok v => exact h.control _
  | error f => exact h.control _

theorem defineAll (w : World) (scope : Nat) (names : List Token) (values : List Value) :
    (w.defineAll scope names values).log = w.log ∧
      (w.defineAll scope names values).store.objects = w.store.objects := by
  induction names generalizing w values with
  | nil => exact ⟨rfl, rfl⟩
  | cons name names ih =>
    cases values with
    | nil => exact ⟨rfl, rfl⟩
    | cons v values => exact ih (w.define scope name.lexeme v) values

/-- A statement list leads back to where it was begun. -/
theorem runInside (h : Onward m m') (enclosing : Nat) (names : List Token) (values : List Value)
    (body : List Stmt) : Onward m (m'.runInside enclosing names values body) := by
  obtain ⟨hlog, hobjects⟩ := defineAll (m'.world.addScope (some enclosing))
    m'.world.store.nextScope names values
  exact h.trans ⟨rfl, hlog, ((refl m').world (c := m'.control) hlog hobjects).objects⟩

theorem apply (h : Onward m m') (c : Closure) (arguments : List Value) :
    Onward m (m'.apply c arguments) :=
  (h.push rfl).runInside _ _ _ _

theorem applyMethod (h : Onward m m') (method : Closure) (object : Nat) (arguments : List Value) :
    Onward m (m'.applyMethod method object arguments) :=
  (h.world (w := (m'.world.bindMethod method object).1) (c := m'.control) rfl rfl).apply _ arguments

theorem addObject (h : Onward m m') (cls : Nat) :
    Onward m { m' with world := m'.world.addObject cls } := by
  refine h.trans ⟨rfl, rfl, fun id hid => ?_⟩
  have hid' : id < m'.world.store.objects.size := hid
  simp only [World.addObject, Store.addObject, Store.nextObject, Store.object,
    Array.getD_eq_getD_getElem?, Array.getElem?_push, Array.size_push, Nat.ne_of_lt hid', if_false,
    and_true]
  exact Nat.lt_succ_of_lt hid'

theorem construct (h : Onward m m') (cls : Nat) (arguments : List Value) :
    Onward m (m'.construct cls arguments) := by
  unfold Machine.construct
  cases m'.world.store.method? cls initializerName with
  | none => exact (h.addObject cls).control _
  | some method => exact ((h.addObject cls).push rfl).applyMethod method _ arguments

theorem applyNative (h : Onward m m') (f : Native) (paren : Token) (arguments : List Value) :
    Onward m (m'.applyNative host f paren arguments) := by
  cases f with
  | clock => exact (h.world (w := m'.world.readClock) (c := m'.control) rfl rfl).settle _
  | guest => exact h.settle _

theorem call (h : Onward m m') (callee : Value) (paren : Token) (arguments : List Value) :
    Onward m (m'.call host callee paren arguments) := by
  unfold Machine.call
  split
  · exact h.control _
  · split
    · split
      · exact h.apply _ _
      · exact h.applyNative _ _ _
      · exact h.construct _ _
      · exact h.control _
    · exact h.control _

theorem arguments (h : Onward m m') (callee : Value) (paren : Token) (before : List Value)
    (after : List Expr) : Onward m (m'.arguments host callee paren before after) := by
  cases after with
  | nil => exact h.call _ _ _
  | cons e after => exact (h.push rfl).control _

theorem render (h : Onward m m') (v : Value) : Onward m (m'.render v) := by
  unfold Machine.render
  split
  · split
    · exact (h.push rfl).applyMethod _ _ _
    · exact h.control _
  · exact h.control _

theorem binary (h : Onward m m') (operator : Token) (l r : Value) :
    Onward m (m'.binary operator l r) := by
  unfold Machine.binary
  split
  · exact (h.push rfl).render _
  · exact h.settle _

theorem methodValue (h : Onward m m') (method : Closure) (object : Nat) (c : Control) :
    Onward m { m' with control := c, world := (m'.world.methodValue method object).1 } :=
  h.world rfl rfl

theorem property (h : Onward m m') (object : Nat) (name : Token) :
    Onward m (m'.property object name) := by
  unfold Machine.property
  split
  · exact h.control _
  · split
    · exact h.control _
    · exact h.methodValue _ _ _

theorem superMethod (h : Onward m m') (ref : Reference) (name : Token) :
    Onward m (m'.superMethod ref name) := by
  unfold Machine.superMethod
  split
  · exact h.control _
  · split
    · exact h.control _
    · exact h.methodValue _ _ _

theorem assign (h : Onward m m') (ref : Reference) (v : Value) : Onward m (m'.assign ref v) := by
  unfold Machine.assign
  split
  · exact h.control _
  · exact h.world rfl rfl

theorem declareClass (h : Onward m m') (name : Token) (superclass : Option Nat)
    (methods : List FunctionDecl) : Onward m (m'.declareClass name superclass methods) := by
  cases superclass with
  | none => exact h.world rfl rfl
  | some id => exact h.world rfl rfl

theorem evalStep (e : Expr) : Onward m (m.evalStep e) := by
  cases e with
  | constant c => exact (refl m).control _
  | grouping e => exact (refl m).control _
  | «variable» ref | this ref => exact (refl m).settle _
  | super ref method => exact (refl m).superMethod ref method
  | _ => exact ((refl m).push rfl).control _

theorem execStep (s : Stmt) : Onward m (m.execStep s) := by
  cases s with
  | var name initial =>
    cases initial with
    | none => exact (refl m).world rfl rfl
    | some e => exact ((refl m).push rfl).control _
  | block body => exact (refl m).runInside _ _ _ _
  | function d => exact (refl m).world rfl rfl
  | cls name superclass methods =>
    rw [Machine.execStep]
    split
    · exact (refl m).control _
    · exact (refl m).declareClass _ _ _
  | ret keyword value =>
    cases value with
    | none => exact (refl m).control _
    | some e => exact ((refl m).push rfl).control _
  | _ => exact ((refl m).push rfl).control _

theorem takeValue (h : Onward m m') (v : Value) (f : Frame) :
    Onward m (m'.takeValue host v f) := by
  cases f with
  | unary operator => exact h.settle _
  | left operator e => exact (h.push rfl).control _
  | right operator l => exact h.binary _ _ _
  | logical operator e =>
    rw [Machine.takeValue]
    split
    · exact h.control _
    · exact h.control _
  | assign target => exact h.assign _ _
  | callee paren es => exact h.arguments _ _ _ _
  | argument callee paren before after => exact h.arguments _ _ _ _
  | get name =>
    cases v with
    | object id => exact h.property _ _
    | _ => exact h.control _
  | setObject name e =>
    cases v with
    | object id => exact (h.push rfl).control _
    | _ => exact h.control _
  | setField id name =>
    have hobjects : Onward m' { m' with world := m'.world.setField id name.lexeme v } := by
      refine ⟨rfl, rfl, fun j hj => ?_⟩
      have hj' : j < m'.world.store.objects.size := hj
      simp only [World.setField, Store.setField, Store.nextObject, Store.object, Array.size_modify,
        Array.getD_eq_getD_getElem?, Array.getElem?_modify, Array.getElem?_eq_getElem hj']
      refine ⟨hj', ?_⟩
      split <;> rfl
    exact (h.trans hobjects).control _
  | construct id => exact h.control _
  | «show» => exact h.control _
  | discard => exact h.control _
  | printValue => exact (h.push rfl).render _
  | define name => exact h.world rfl rfl
  | branch s t =>
    simp only [Machine.takeValue]
    split
    · exact h.control _
    · cases t with
      | none => exact h.control _
      | some t => exact h.control _
  | loopTest c s =>
    rw [Machine.takeValue]
    split
    · exact (h.push rfl).control _
    · exact h.control _
  | ret => exact h.control _
  | _ => exact h

theorem takeText (h : Onward m m') (text : String) (f : Frame) :
    Onward m (m'.takeText host text f) := by
  cases f with
  | append left => exact h.control _
  | printText =>
    rw [Machine.takeText]
    have hlog : (m'.world.print host text).1.log = m'.world.log := rfl
    have hobjects : (m'.world.print host text).1.store.objects = m'.world.store.objects := rfl
    generalize m'.world.print host text = printed at hlog hobjects
    obtain ⟨w, refusal⟩ := printed
    cases refusal with
    | none => exact h.world hlog hobjects
    | some message => exact h.world hlog hobjects
  | _ => exact h

theorem takeDone {f : Frame} {fs : List Frame} (c : Completion) (hframes : m.frames = f :: fs) :
    Onward m ({ m with frames := fs }.takeDone c f) := by
  cases f with
  | sequence rest outer =>
    have hleave : Onward m { m with frames := fs, scope := outer } := by
      refine ⟨?_, rfl, fun _ hid => ⟨hid, rfl⟩⟩
      simp [Machine.outward, hframes, Frame.outer?]
    cases c with
    | returned v => exact hleave.control _
    | normal =>
      cases rest with
      | nil => exact hleave.control _
      | cons s rest =>
        refine ⟨?_, rfl, fun _ hid => ⟨hid, rfl⟩⟩
        simp [Machine.outward, Machine.takeDone, Machine.push, Machine.exec, hframes, Frame.outer?]
  | loopBody condition s =>
    cases c with
    | normal => exact ((pop hframes rfl).push rfl).control _
    | returned v => exact (pop hframes rfl).control _
  | body f => exact (pop hframes rfl).settle _
  | _ => exact pop hframes rfl

end Onward

variable {R : Recorded} {m : Machine} {host : Host}

/-- No statement list is handed a value or a text. -/
def Regular (m : Machine) : Prop :=
  ∀ f fs, m.frames = f :: fs →
    (∃ v, m.control = .value v) ∨ (∃ text, m.control = .text text) → f.outer? = none

theorem Sound.regular (h : m.Sound R) : m.Regular := by
  intro f fs hframes hcontrol
  have hstack {kind : Awaited} {fn : FunctionContext} {ctx : Context} {k : Nat}
      (h : Stack R m.world.Clean m.world.store kind fn ctx k (f :: fs)) (hkind : kind ≠ .done) :
      f.outer? = none := by
    cases h with
    | frame hf _ => cases hf <;> rfl
    | define _ _ => rfl
    | sequence | body => exact absurd rfl hkind
  cases h with
  | value _ hat | text _ hat => exact hstack (hframes ▸ hat.stack) (by simp)
  | eval h' | exec h' | done h' | fault h' =>
    rcases hcontrol with ⟨v, hv⟩ | ⟨text, htext⟩
    · simp [h'] at hv
    · simp [h'] at htext

/-- A fault that meets a statement list is reported there.  Every other step goes on without a
report, and with the fault if there is one. -/
theorem Regular.step_cases (h : m.Regular) (host : Host) :
    (∃ f rest outer fs, m.control = .fault f ∧ m.frames = .sequence rest outer :: fs ∧
      m.step host = { m with control := .done .normal, world := m.world.report f.report }) ∨
    Onward m (m.step host) ∧ ∀ f, m.control = .fault f → (m.step host).control = .fault f := by
  obtain ⟨control, frames, scope, world⟩ := m
  cases control with
  | eval e => exact .inr ⟨.evalStep e, fun _ hf => nomatch hf⟩
  | exec s => exact .inr ⟨.execStep s, fun _ hf => nomatch hf⟩
  | value v =>
    refine .inr ⟨?_, fun _ hf => nomatch hf⟩
    cases frames with
    | nil => exact .refl _
    | cons f fs => exact (Onward.pop rfl (h f fs rfl (.inl ⟨v, rfl⟩))).takeValue v f
  | text text =>
    refine .inr ⟨?_, fun _ hf => nomatch hf⟩
    cases frames with
    | nil => exact .refl _
    | cons f fs => exact (Onward.pop rfl (h f fs rfl (.inr ⟨text, rfl⟩))).takeText text f
  | done c =>
    refine .inr ⟨?_, fun _ hf => nomatch hf⟩
    cases frames with
    | nil => exact .refl _
    | cons f fs => exact .takeDone c rfl
  | fault fault =>
    cases frames with
    | nil => exact .inr ⟨.refl _, fun _ hf => hf⟩
    | cons f fs =>
      cases f with
      | sequence rest outer => exact .inl ⟨fault, rest, outer, fs, rfl, rfl, rfl⟩
      | _ => exact .inr ⟨(Onward.pop rfl rfl).control _, fun _ hf => hf⟩

/-- A step leads back to the scope that the machine leads back to. -/
theorem Regular.outward_step (h : m.Regular) (host : Host) :
    (m.step host).outward = m.outward := by
  rcases h.step_cases host with ⟨f, rest, outer, fs, -, -, hstep⟩ | ⟨honward, -⟩
  · rw [hstep]
    rfl
  · exact honward.outward

/-- An instance that was made is one of its class after a step. -/
theorem Regular.object_step (h : m.Regular) (host : Host) {id : Nat}
    (hid : id < m.world.store.nextObject) :
    id < (m.step host).world.store.nextObject ∧
      ((m.step host).world.store.object id).cls = (m.world.store.object id).cls := by
  rcases h.step_cases host with ⟨f, rest, outer, fs, -, -, hstep⟩ | ⟨honward, -⟩
  · rw [hstep]
    exact ⟨hid, rfl⟩
  · exact honward.objects id hid

/-- The fault that a step raises. -/
def raised (host : Host) (m : Machine) : List Fault :=
  match m.control, (m.step host).control with
  | .fault _, _ => []
  | _, .fault f => [f]
  | _, _ => []

/-- The fault on its way to a statement list. -/
def pending (m : Machine) : List Fault :=
  match m.control with
  | .fault f => [f]
  | _ => []

/-- A fault is reported once, by the first statement list that it meets. -/
theorem Regular.reports_step (h : m.Regular) (host : Host) :
    (m.step host).world.log.reports.toList ++ (m.step host).pending.map Fault.report =
      m.world.log.reports.toList ++ (m.pending ++ m.raised host).map Fault.report := by
  rcases h.step_cases host with ⟨f, rest, outer, fs, hcontrol, -, hstep⟩ | ⟨honward, hfault⟩
  · simp [raised, pending, hcontrol, hstep, World.report, Log.add]
  · rw [honward.log]
    congr 2
    cases hcontrol : m.control with
    | fault f => simp [raised, pending, hcontrol, hfault f hcontrol]
    | _ => cases hnext : (m.step host).control <;> simp [raised, pending, hcontrol, hnext]

end Machine

end ClassScript
