import ClassScript.Evaluation.Run
import ClassScript.Proofs.Renaming.World

/-! # Machines that are alike

Two machines that evaluate programs that are alike stay alike: they take the same steps, with the
same values, in scopes of the same numbers.  One lemma for each operation of the machine shows that
it keeps them so.
-/
namespace ClassScript

open Store (Marked Later)

/-- Frames that leave the scope as it is. -/
inductive Frame.Alike (ρ : Renaming) (marks : List Bool) : Frame → Frame → Prop where
  | unary {operator : Token} : Frame.Alike ρ marks (.unary operator) (.unary operator)
  | left {operator : Token} {e : Expr} (he : e.Avoids ρ) :
      Frame.Alike ρ marks (.left operator e) (.left operator (e.rename ρ marks))
  | right {operator : Token} {v : Value} :
      Frame.Alike ρ marks (.right operator v) (.right operator v)
  | append {text : String} : Frame.Alike ρ marks (.append text) (.append text)
  | logical {operator : Token} {e : Expr} (he : e.Avoids ρ) :
      Frame.Alike ρ marks (.logical operator e) (.logical operator (e.rename ρ marks))
  | assign {target : Reference} (h : target.name.lexeme ≠ ρ.new) :
      Frame.Alike ρ marks (.assign target) (.assign (target.rename ρ marks))
  | callee {paren : Token} {es : List Expr} (hes : Expr.AvoidsAll ρ es) :
      Frame.Alike ρ marks (.callee paren es) (.callee paren (Expr.renameAll ρ marks es))
  | argument {callee : Value} {paren : Token} {before : List Value} {es : List Expr}
      (hes : Expr.AvoidsAll ρ es) :
      Frame.Alike ρ marks (.argument callee paren before es)
        (.argument callee paren before (Expr.renameAll ρ marks es))
  | get {name : Token} : Frame.Alike ρ marks (.get name) (.get name)
  | setObject {name : Token} {e : Expr} (he : e.Avoids ρ) :
      Frame.Alike ρ marks (.setObject name e) (.setObject name (e.rename ρ marks))
  | setField {object : Nat} {name : Token} :
      Frame.Alike ρ marks (.setField object name) (.setField object name)
  | construct {object : Nat} : Frame.Alike ρ marks (.construct object) (.construct object)
  | show : Frame.Alike ρ marks .show .show
  | discard : Frame.Alike ρ marks .discard .discard
  | printValue : Frame.Alike ρ marks .printValue .printValue
  | printText : Frame.Alike ρ marks .printText .printText
  | define {name : Token} (h : name.lexeme ≠ ρ.new) :
      Frame.Alike ρ marks (.define name) (.define (name.rename ρ (marks.headD false)))
  | ifThen {s s' : Stmt} (hs : Stmt.Alike ρ marks s s') :
      Frame.Alike ρ marks (.branch s none) (.branch s' none)
  | ifElse {s s' t t' : Stmt} (hs : Stmt.Alike ρ marks s s') (ht : Stmt.Alike ρ marks t t') :
      Frame.Alike ρ marks (.branch s (some t)) (.branch s' (some t'))
  | loopTest {c : Expr} {s s' : Stmt} (hc : c.Avoids ρ) (hs : Stmt.Alike ρ marks s s') :
      Frame.Alike ρ marks (.loopTest c s) (.loopTest (c.rename ρ marks) s')
  | loopBody {c : Expr} {s s' : Stmt} (hc : c.Avoids ρ) (hs : Stmt.Alike ρ marks s s') :
      Frame.Alike ρ marks (.loopBody c s) (.loopBody (c.rename ρ marks) s')
  | ret : Frame.Alike ρ marks .ret .ret
  | body {f f' : Closure} (hscope : f'.scope = f.scope)
      (hinitializer : f'.isInitializer = f.isInitializer)
      (hname : f'.declaration.name = f.declaration.name) :
      Frame.Alike ρ marks (.body f) (.body f')

/-- Stacks of frames that are alike where the scopes are marked so. -/
inductive FramesAlike (ρ : Renaming) (T : Tags) (s : Store) :
    List Bool → List Frame → List Frame → Prop where
  | nil {marks : List Bool} : FramesAlike ρ T s marks [] []
  | cons {marks : List Bool} {f f' : Frame} {fs fs' : List Frame} (hf : f.Alike ρ marks f')
      (hfs : FramesAlike ρ T s marks fs fs') : FramesAlike ρ T s marks (f :: fs) (f' :: fs')
  | sequence {marks marks' : List Bool} {rest rest' : List Stmt} {outer : Nat}
      {fs fs' : List Frame} (hrest : Stmt.AlikeAll ρ marks rest rest')
      (houter : Marked T s marks' outer) (hfs : FramesAlike ρ T s marks' fs fs') :
      FramesAlike ρ T s marks (.sequence rest outer :: fs) (.sequence rest' outer :: fs')

inductive Control.Alike (ρ : Renaming) (marks : List Bool) : Control → Control → Prop where
  | eval {e : Expr} (he : e.Avoids ρ) :
      Control.Alike ρ marks (.eval e) (.eval (e.rename ρ marks))
  | exec {s s' : Stmt} (hs : Stmt.Alike ρ marks s s') : Control.Alike ρ marks (.exec s) (.exec s')
  | value {v : Value} : Control.Alike ρ marks (.value v) (.value v)
  | text {text : String} : Control.Alike ρ marks (.text text) (.text text)
  | done {c : Completion} : Control.Alike ρ marks (.done c) (.done c)
  | fault {f f' : Fault} (h : Fault.Alike ρ f f') : Control.Alike ρ marks (.fault f) (.fault f')

namespace Machine

/-- All of two machines but their controls is alike. -/
structure Matches (ρ : Renaming) (T : Tags) (marks : List Bool) (m m' : Machine) : Prop where
  world : World.Alike ρ T m.world m'.world
  scope : m'.scope = m.scope
  marked : Marked T m.world.store marks m.scope
  frames : FramesAlike ρ T m.world.store marks m.frames m'.frames

/-- Machines that are alike, for some tags of the scopes. -/
def Alike (ρ : Renaming) (m m' : Machine) : Prop :=
  ∃ T marks, Matches ρ T marks m m' ∧ Control.Alike ρ marks m.control m'.control

end Machine

theorem FramesAlike.later {ρ : Renaming} {T T' : Tags} {s s' : Store} {marks : List Bool}
    {fs fs' : List Frame} (h : FramesAlike ρ T s marks fs fs') (hlater : Later T s T' s') :
    FramesAlike ρ T' s' marks fs fs' := by
  induction h with
  | nil => exact .nil
  | cons hf _ ih => exact .cons hf ih
  | sequence hrest houter _ ih => exact .sequence hrest (houter.later hlater) ih

namespace Machine.Matches

variable {ρ : Renaming} {T T' : Tags} {marks : List Bool} {m m' : Machine}

/-- Both machines go on in later worlds. -/
theorem later (h : Matches ρ T marks m m') {w w' : World}
    (hlater : Later T m.world.store T' w.store) (hw : World.Alike ρ T' w w') :
    Matches ρ T' marks { m with world := w } { m' with world := w' } :=
  ⟨hw, h.scope, h.marked.later hlater, h.frames.later hlater⟩

theorem push (h : Matches ρ T marks m m') {f f' : Frame} (hf : f.Alike ρ marks f') :
    Matches ρ T marks (m.push f) (m'.push f') :=
  ⟨h.world, h.scope, h.marked, .cons hf h.frames⟩

theorem control (h : Matches ρ T marks m m') {c c' : Control} (hc : c.Alike ρ marks c') :
    Machine.Alike ρ { m with control := c } { m' with control := c' } :=
  ⟨T, marks, ⟨h.world, h.scope, h.marked, h.frames⟩, hc⟩

theorem eval (h : Matches ρ T marks m m') {e : Expr} (he : e.Avoids ρ) :
    Machine.Alike ρ (m.eval e) (m'.eval (e.rename ρ marks)) :=
  h.control (.eval he)

theorem exec (h : Matches ρ T marks m m') {s s' : Stmt} (hs : Stmt.Alike ρ marks s s') :
    Machine.Alike ρ (m.exec s) (m'.exec s') :=
  h.control (.exec hs)

theorem yield (h : Matches ρ T marks m m') (v : Value) : Machine.Alike ρ (m.yield v) (m'.yield v) :=
  h.control .value

theorem yieldText (h : Matches ρ T marks m m') (text : String) :
    Machine.Alike ρ (m.yieldText text) (m'.yieldText text) :=
  h.control .text

theorem complete (h : Matches ρ T marks m m') (c : Completion) :
    Machine.Alike ρ (m.complete c) (m'.complete c) :=
  h.control .done

theorem raise (h : Matches ρ T marks m m') {f f' : Fault} (hf : Fault.Alike ρ f f') :
    Machine.Alike ρ (m.raise f) (m'.raise f') :=
  h.control (.fault hf)

theorem raiseSame (h : Matches ρ T marks m m') (f : Fault) :
    Machine.Alike ρ (m.raise f) (m'.raise f) :=
  h.raise (.inl rfl)

theorem settle (h : Matches ρ T marks m m') {r r' : Except Fault Value}
    (hr : Result.Alike ρ r r') : Machine.Alike ρ (m.settle r) (m'.settle r') := by
  cases hr with
  | ok v => exact h.yield v
  | error hf => exact h.raise hf

theorem settleSame (h : Matches ρ T marks m m') (r : Except Fault Value) :
    Machine.Alike ρ (m.settle r) (m'.settle r) := by
  cases r with
  | ok v => exact h.yield v
  | error f => exact h.raiseSame f

/-- A statement list in a new scope. -/
theorem runInside (h : Matches ρ T marks m m') {enclosing : Nat} {inner : List Bool}
    (hmarked : Marked T m.world.store inner enclosing) (chosen : Bool) {names : List Token}
    (hnames : ∀ t ∈ names, t.lexeme ≠ ρ.new) (values : List Value) {body body' : List Stmt}
    (hbody : Stmt.AlikeAll ρ (chosen :: inner) body body') :
    Machine.Alike ρ (m.runInside enclosing names values body)
      (m'.runInside enclosing (names.map (Token.rename ρ chosen)) values body') := by
  have hadd := h.world.withStore (h.world.store.addScope (some enclosing) chosen)
  have hlater : Later T m.world.store (T.add m.world.store chosen) _ :=
    .addScope T m.world.store (some enclosing) chosen
  have htag : T.add m.world.store chosen m.world.store.nextScope = chosen := if_pos rfl
  obtain ⟨halike, hlater'⟩ := hadd.defineAll m.world.store.nextScope hnames values
  rw [htag] at halike
  have hall := h.later (hlater.trans hlater') halike
  have hinner := (hmarked.addScope h.world.store.global.2.1 chosen).later hlater'
  refine ⟨_, chosen :: inner, ⟨?_, ?_, hinner, ?_⟩, .done⟩
  · simp only [Machine.runInside, Machine.runList, h.world.store.nextScope]
    exact halike
  · exact h.world.store.nextScope
  · show FramesAlike ρ _ _ _ (.sequence body m.scope :: m.frames)
      (.sequence body' m'.scope :: m'.frames)
    rw [h.scope]
    exact .sequence hbody hall.marked hall.frames

theorem apply (h : Matches ρ T marks m m') {c c' : Closure} (hc : c.Alike ρ T m.world.store [] c')
    (arguments : List Value) : Machine.Alike ρ (m.apply c arguments) (m'.apply c' arguments) := by
  obtain ⟨inner, hmarked, hdeclaration⟩ := hc.declaration
  have hpush := h.push (.body hc.scope hc.isInitializer hdeclaration.name_eq)
  unfold Machine.apply
  rw [hc.scope]
  cases hdeclaration' : c.declaration with
  | mk name parameters body =>
    rw [hdeclaration'] at hdeclaration
    generalize c'.declaration = d' at hdeclaration ⊢
    cases hdeclaration with
    | mk chosen hparameters hbody =>
      exact hpush.runInside hmarked chosen hparameters arguments hbody

theorem applyMethod (hρ : ρ.Proper) (h : Matches ρ T marks m m') {c c' : Closure}
    (hc : c.Alike ρ T m.world.store [false] c') (object : Nat) (arguments : List Value) :
    Machine.Alike ρ (m.applyMethod c object arguments) (m'.applyMethod c' object arguments) := by
  obtain ⟨T', hlater, halike, hbound⟩ := h.world.bindMethod hρ hc object
  exact (h.later hlater halike).apply hbound arguments

theorem construct (hρ : ρ.Proper) (h : Matches ρ T marks m m') (cls : Nat)
    (arguments : List Value) :
    Machine.Alike ρ (m.construct cls arguments) (m'.construct cls arguments) := by
  have hmethod := h.world.store.method? cls initializerName
  have hobjects : m'.world.store.objects.push { cls } = m.world.store.objects.push { cls } := by
    rw [h.world.store.objects]
  have hlater : Later T m.world.store T (m.world.addObject cls).store := .ofScopes T rfl
  have hworld : World.Alike ρ T (m.world.addObject cls) (m'.world.addObject cls) := by
    refine h.world.withStore ?_
    rw [Store.addObject, Store.addObject, hobjects]
    exact h.world.store.withObjects _
  have hadded := h.later hlater hworld
  unfold Machine.construct
  rw [h.world.store.nextObject]
  generalize m.world.store.method? cls initializerName = method,
    m'.world.store.method? cls initializerName = method' at hmethod
  cases hmethod with
  | none => exact hadded.yield _
  | some hclosure =>
    exact (hadded.push .construct).applyMethod hρ (hclosure.later hlater) _ arguments

theorem applyNative (h : Matches ρ T marks m m') (host : Host) (f : Native) (paren : Token)
    (arguments : List Value) :
    Machine.Alike ρ (m.applyNative host f paren arguments)
      (m'.applyNative host f paren arguments) := by
  cases f with
  | clock =>
    have hworld : World.Alike ρ T m.world.readClock m'.world.readClock :=
      ⟨h.world.store, h.world.distances, h.world.distances', h.world.output,
        congrArg (· + 1) h.world.clockReads, h.world.log⟩
    simp only [Machine.applyNative, h.world.clockReads]
    have hlater := h.later (w := m.world.readClock) (.ofScopes T rfl) hworld
    cases host.clock m.world.clockReads with
    | ok now => exact hlater.yield _
    | error reason => exact hlater.raiseSame _
  | guest arity answer =>
    simp only [Machine.applyNative, h.world.store.text]
    cases answer _ with
    | ok v => exact h.yield v
    | error message => exact h.raiseSame _

theorem arity? (h : Matches ρ T marks m m') (v : Value) : m'.arity? v = m.arity? v := by
  cases v with
  | function id =>
    obtain ⟨inner, -, hdeclaration⟩ := (h.world.store.functions id).declaration
    simp only [Machine.arity?, hdeclaration.arity_eq]
  | native id => simp only [Machine.arity?, h.world.store.native]
  | cls id => simp only [Machine.arity?, h.world.store.classArity]
  | _ => rfl

theorem call (hρ : ρ.Proper) (h : Matches ρ T marks m m') (host : Host) (callee : Value)
    (paren : Token) (arguments : List Value) :
    Machine.Alike ρ (m.call host callee paren arguments) (m'.call host callee paren arguments) := by
  unfold Machine.call
  rw [h.arity?]
  split
  · exact h.raiseSame _
  · split
    · cases callee with
      | function id => exact h.apply (h.world.store.functions id) arguments
      | native id =>
        simp only [h.world.store.native]
        exact h.applyNative host _ paren arguments
      | cls id => exact h.construct hρ id arguments
      | _ => exact h.raiseSame _
    · exact h.raiseSame _

theorem arguments (hρ : ρ.Proper) (h : Matches ρ T marks m m') (host : Host) (callee : Value)
    (paren : Token) (before : List Value) {es : List Expr} (hes : Expr.AvoidsAll ρ es) :
    Machine.Alike ρ (m.arguments host callee paren before es)
      (m'.arguments host callee paren before (Expr.renameAll ρ marks es)) := by
  cases es with
  | nil => exact h.call hρ host callee paren before.reverse
  | cons e es =>
    exact (h.push (.argument ⟨hes.1.2, hes.2.2⟩)).eval ⟨hes.1.1, hes.2.1⟩

theorem render (hρ : ρ.Proper) (h : Matches ρ T marks m m') (v : Value) :
    Machine.Alike ρ (m.render v) (m'.render v) := by
  cases v with
  | object id =>
    have hmethod := h.world.store.textMethod? id
    simp only [Machine.render, h.world.store.text]
    generalize m.world.store.textMethod? id = method,
      m'.world.store.textMethod? id = method' at hmethod
    cases hmethod with
    | none => exact h.yieldText _
    | some hclosure => exact (h.push .show).applyMethod hρ hclosure id []
  | _ =>
    simp only [Machine.render, h.world.store.text]
    exact h.yieldText _

theorem binary (hρ : ρ.Proper) (h : Matches ρ T marks m m') (operator : Token) (l r : Value) :
    Machine.Alike ρ (m.binary operator l r) (m'.binary operator l r) := by
  unfold Machine.binary
  split
  · exact (h.push .append).render hρ r
  · exact h.settleSame _

/-- A method is taken from an instance as a value. -/
theorem methodValue (hρ : ρ.Proper) (h : Matches ρ T marks m m') {c c' : Closure}
    (hc : c.Alike ρ T m.world.store [false] c') (object : Nat) :
    Machine.Alike ρ
      { m with
        control := .value (m.world.methodValue c object).2
        world := (m.world.methodValue c object).1 }
      { m' with
        control := .value (m'.world.methodValue c' object).2
        world := (m'.world.methodValue c' object).1 } := by
  obtain ⟨T', hlater, halike, hvalue⟩ := h.world.methodValue hρ hc object
  rw [hvalue]
  exact (h.later hlater halike).yield _

theorem property (hρ : ρ.Proper) (h : Matches ρ T marks m m') (object : Nat) (name : Token) :
    Machine.Alike ρ (m.property object name) (m'.property object name) := by
  have hmethod := h.world.store.method? (m.world.store.object object).cls name.lexeme
  unfold Machine.property
  rw [h.world.store.object]
  split
  · exact h.yield _
  · generalize m.world.store.method? (m.world.store.object object).cls name.lexeme = method,
      m'.world.store.method? (m.world.store.object object).cls name.lexeme = method' at hmethod
    cases hmethod with
    | none => exact h.raiseSame _
    | some hclosure => exact h.methodValue hρ hclosure object

theorem superParts (hρ : ρ.Proper) (h : Matches ρ T marks m m') {ref : Reference}
    (hname : ref.name.lexeme = "super") : m'.superParts ref = m.superParts ref := by
  have hsuper (d : Nat) : m'.world.store.valueAt m.scope d ref.name =
      m.world.store.valueAt m.scope d ref.name := by
    rw [Store.valueAt, Store.valueAt, h.world.valueAt?_kept (hname ▸ hρ.new.2.symm)
      (hname ▸ hρ.old.2.symm)]
  have hthis (d : Nat) : m'.world.store.valueAt m.scope d (Token.named "this" ref.name.line) =
      m.world.store.valueAt m.scope d (Token.named "this" ref.name.line) := by
    rw [Store.valueAt, Store.valueAt, h.world.valueAt?_kept]
    · exact hρ.new.1.symm
    · exact hρ.old.1.symm
  simp only [Machine.superParts, h.world.distance?_eq rfl, h.scope, hsuper, hthis]

theorem superMethod (hρ : ρ.Proper) (h : Matches ρ T marks m m') {ref : Reference}
    (hname : ref.name.lexeme = "super") (method : Token) :
    Machine.Alike ρ (m.superMethod ref method) (m'.superMethod ref method) := by
  unfold Machine.superMethod
  rw [h.superParts hρ hname]
  split
  · exact h.raiseSame _
  next cls object _ =>
    have hmethod := h.world.store.method? cls method.lexeme
    generalize m.world.store.method? cls method.lexeme = found,
      m'.world.store.method? cls method.lexeme = found' at hmethod
    cases hmethod with
    | none => exact h.raiseSame _
    | some hclosure => exact h.methodValue hρ hclosure object

theorem assign (h : Matches ρ T marks m m') {ref : Reference} (hname : ref.name.lexeme ≠ ρ.new)
    (v : Value) : Machine.Alike ρ (m.assign ref v) (m'.assign (ref.rename ρ marks) v) := by
  obtain ⟨control', frames', scope', world'⟩ := m'
  obtain rfl : scope' = m.scope := h.scope
  obtain ⟨htarget, htag⟩ := h.world.target? h.marked hname
  unfold Machine.assign
  rw [htarget]
  split
  · exact h.raise (.undefined ref.name _)
  next scope hscope =>
    have hdefine := h.world.define scope hname v
    rw [htag scope hscope] at hdefine
    exact (h.later (.define T m.world.store scope ref.name.lexeme v) hdefine).yield v

theorem superclass (h : Matches ρ T marks m m') {ref : Reference}
    (hname : ref.name.lexeme ≠ ρ.new) :
    (∃ id, m.superclass (some ref) = .ok (some id) ∧
      m'.superclass (some (ref.rename ρ marks)) = .ok (some id)) ∨
    ∃ f f', Fault.Alike ρ f f' ∧ m.superclass (some ref) = .error f ∧
      m'.superclass (some (ref.rename ρ marks)) = .error f' := by
  have hread := h.world.read h.marked hname
  simp only [Machine.superclass, h.scope]
  generalize m.world.read m.scope ref = r,
    m'.world.read m.scope (ref.rename ρ marks) = r' at hread
  cases hread with
  | error hf => exact .inr ⟨_, _, hf, rfl, rfl⟩
  | ok v =>
    cases v with
    | cls id => exact .inl ⟨id, rfl, rfl⟩
    | _ => exact .inr ⟨_, _, .inl rfl, rfl, rfl⟩

end Machine.Matches

/-- The methods of two classes whose declarations are alike. -/
theorem methodTable_alike {ρ : Renaming} {T : Tags} {s : Store} {marks : List Bool} {scope : Nat}
    (hmarked : Marked T s marks scope) {methods methods' : List FunctionDecl}
    (h : FunctionDecl.AlikeAll ρ (false :: marks) methods methods') (name : String) :
    Option.Rel (Closure.Alike ρ T s [false]) ((Machine.methodTable scope methods).get? name)
      ((Machine.methodTable scope methods').get? name) := by
  have hfold (methods methods' : List FunctionDecl) (table table' : Bindings Closure)
      (h : FunctionDecl.AlikeAll ρ (false :: marks) methods methods')
      (htable : Option.Rel (Closure.Alike ρ T s [false]) (table.get? name) (table'.get? name)) :
      Option.Rel (Closure.Alike ρ T s [false])
        ((methods.foldl (fun table d => table.insert d.name.lexeme
          ⟨d, scope, decide (d.name.lexeme = initializerName)⟩) table).get? name)
        ((methods'.foldl (fun table d => table.insert d.name.lexeme
          ⟨d, scope, decide (d.name.lexeme = initializerName)⟩) table').get? name) := by
    induction methods generalizing methods' table table' with
    | nil =>
      cases h
      exact htable
    | cons d methods ih =>
      cases h with
      | @cons _ _ d' _ methods' hd hmethods =>
        refine ih methods' _ _ hmethods ?_
        simp only [Bindings.get?_insert, hd.name_eq]
        split
        · exact .some ⟨rfl, rfl, marks, hmarked, hd⟩
        · exact htable
  exact hfold methods methods' .empty .empty h .none

namespace Machine.Matches

variable {ρ : Renaming} {T : Tags} {marks : List Bool} {m m' : Machine}

/-- A declaration ends: its name is bound in the current scope of a later world. -/
theorem declared (h : Matches ρ T marks m m') {T' : Tags} {w w' : World}
    (hlater : Later T m.world.store T' w.store) (hw : World.Alike ρ T' w w') {name : Token}
    (hname : name.lexeme ≠ ρ.new) (v : Value) :
    Machine.Alike ρ
      { m with control := .done .normal, world := w.define m.scope name.lexeme v }
      { m' with
        control := .done .normal
        world := w'.define m'.scope (name.rename ρ (marks.headD false)).lexeme v } := by
  obtain ⟨control', frames', scope', world'⟩ := m'
  obtain rfl : scope' = m.scope := h.scope
  have hdeclare := hw.declare (h.marked.later hlater) hname v
  exact (h.later (hlater.trans (.define T' _ _ _ _)) hdeclare).control .done

theorem plainClass (h : Matches ρ T marks m m') {name : Token}
    (hname : name.Keeps ρ (marks.headD false)) {methods methods' : List FunctionDecl}
    (hmethods : FunctionDecl.AlikeAll ρ (false :: marks) methods methods') :
    Machine.Alike ρ (m.declareClass name none methods) (m'.declareClass name none methods') := by
  obtain ⟨control', frames', scope', world'⟩ := m'
  obtain rfl : scope' = m.scope := h.scope
  have hclass : Class.Alike ρ T m.world.store
      { name := name.lexeme, methods := methodTable m.scope methods }
      { name := name.lexeme, methods := methodTable m.scope methods' } :=
    ⟨rfl, rfl, methodTable_alike h.marked hmethods⟩
  have hadd := h.world.withStore (h.world.store.addClass hclass)
  have hlater : Later T m.world.store T (m.world.store.addClass
      { name := name.lexeme, methods := methodTable m.scope methods }) := .ofScopes T rfl
  have hdeclared := h.declared hlater hadd hname.1 (.cls m.world.store.nextClass)
  rw [hname.rename_eq] at hdeclared
  simp only [Machine.declareClass, h.world.store.nextClass]
  exact hdeclared

theorem subclass (hρ : ρ.Proper) (h : Matches ρ T marks m m') {name : Token}
    (hname : name.Keeps ρ (marks.headD false)) (id : Nat) {methods methods' : List FunctionDecl}
    (hmethods : FunctionDecl.AlikeAll ρ (false :: false :: marks) methods methods') :
    Machine.Alike ρ (m.declareClass name (some id) methods)
      (m'.declareClass name (some id) methods') := by
  obtain ⟨control', frames', scope', world'⟩ := m'
  obtain rfl : scope' = m.scope := h.scope
  let inner := m.world.store.nextScope
  have hadd := h.world.withStore (h.world.store.addScope (some m.scope) false)
  have hdefine := hadd.define inner hρ.new.2.symm (.cls id)
  rw [hρ.name_super] at hdefine
  have hlater : Later T m.world.store (T.add m.world.store false)
      ((m.world.store.addScope (some m.scope)).define inner "super" (.cls id)) :=
    .trans (.addScope T _ _ false) (.define _ _ _ _ _)
  have hmarked := (h.marked.addScope h.world.store.global.2.1 false).later
    (.define _ _ inner "super" (.cls id))
  have hclass : Class.Alike ρ (T.add m.world.store false)
      ((m.world.store.addScope (some m.scope)).define inner "super" (.cls id))
      { name := name.lexeme, superclass := some id, methods := methodTable inner methods }
      { name := name.lexeme, superclass := some id, methods := methodTable inner methods' } :=
    ⟨rfl, rfl, methodTable_alike hmarked hmethods⟩
  have hall := hdefine.withStore (hdefine.store.addClass hclass)
  have hdeclared := h.declared (hlater.trans (.ofScopes _ rfl)) hall hname.1
    (.cls m.world.store.nextClass)
  rw [hname.rename_eq] at hdeclared
  simp only [Machine.declareClass, h.world.store.nextClass, h.world.store.nextScope]
  exact hdeclared

theorem function (h : Matches ρ T marks m m') {d d' : FunctionDecl}
    (hname : d.name.Keeps ρ (marks.headD false)) (hd : FunctionDecl.Alike ρ marks d d') :
    Machine.Alike ρ (m.execStep (.function d)) (m'.execStep (.function d')) := by
  obtain ⟨control', frames', scope', world'⟩ := m'
  obtain rfl : scope' = m.scope := h.scope
  have hclosure : Closure.Alike ρ T m.world.store [] ⟨d, m.scope, false⟩ ⟨d', m.scope, false⟩ :=
    ⟨rfl, rfl, marks, h.marked, hd⟩
  have hadd := h.world.withStore (h.world.store.addFunction hclosure)
  have hlater : Later T m.world.store T (m.world.store.addFunction ⟨d, m.scope, false⟩) :=
    .ofScopes T rfl
  have hdeclared := h.declared hlater hadd hname.1 (.function m.world.store.nextFunction)
  rw [hname.rename_eq] at hdeclared
  simp only [Machine.execStep, h.world.store.nextFunction, hd.name_eq]
  exact hdeclared

/-- Beginning to evaluate an expression. -/
theorem evalStep (hρ : ρ.Proper) (h : Matches ρ T marks m m') {e : Expr} (he : e.Avoids ρ) :
    Machine.Alike ρ (m.evalStep e) (m'.evalStep (e.rename ρ marks)) := by
  obtain ⟨hshape, hlacks⟩ := he
  cases e with
  | constant c => exact h.yield _
  | grouping e => exact h.eval ⟨hshape, hlacks⟩
  | unary operator e => exact (h.push .unary).eval ⟨hshape, hlacks⟩
  | binary l operator r =>
    exact (h.push (.left ⟨hshape.2, hlacks.2⟩)).eval ⟨hshape.1, hlacks.1⟩
  | logical l operator r =>
    exact (h.push (.logical ⟨hshape.2, hlacks.2⟩)).eval ⟨hshape.1, hlacks.1⟩
  | «variable» ref =>
    have hread := h.world.read h.marked hlacks
    simp only [Expr.rename, Machine.evalStep, h.scope]
    exact h.settle hread
  | assign target e => exact (h.push (.assign hlacks.1)).eval ⟨hshape.2, hlacks.2⟩
  | call f paren es =>
    exact (h.push (.callee ⟨hshape.2, hlacks.2⟩)).eval ⟨hshape.1, hlacks.1⟩
  | get e name => exact (h.push .get).eval ⟨hshape, hlacks⟩
  | set e name v =>
    exact (h.push (.setObject ⟨hshape.2, hlacks.2⟩)).eval ⟨hshape.1, hlacks.1⟩
  | this ref =>
    have hname : ref.name.lexeme = "this" := hshape
    have hread := h.world.read_kept (hname ▸ hρ.new.1.symm) (hname ▸ hρ.old.1.symm) m.scope
    simp only [Expr.rename, Machine.evalStep, h.scope, hread]
    exact h.settleSame _
  | super ref method => exact h.superMethod hρ hshape method

/-- Beginning to execute a statement. -/
theorem execStep (hρ : ρ.Proper) (h : Matches ρ T marks m m') {s s' : Stmt}
    (hs : Stmt.Alike ρ marks s s') : Machine.Alike ρ (m.execStep s) (m'.execStep s') := by
  cases hs with
  | expression he => exact (h.push .discard).eval he
  | print he => exact (h.push .printValue).eval he
  | declare hname => exact h.declared (.refl T _) h.world hname .nil
  | var hname he => exact (h.push (.define hname)).eval he
  | block chosen hbody =>
    have hnames : ∀ t ∈ ([] : List Token), t.lexeme ≠ ρ.new := by simp
    have hrun := h.runInside h.marked chosen hnames [] hbody
    simp only [Machine.execStep, h.scope]
    exact hrun
  | ifThen hc hs => exact (h.push (.ifThen hs)).eval hc
  | ifElse hc hs ht => exact (h.push (.ifElse hs ht)).eval hc
  | loop hc hs => exact (h.push (.loopTest hc hs)).eval hc
  | @function _ d d' hname hd => exact h.function hname hd
  | plainClass hname hmethods => exact h.plainClass hname hmethods
  | @subclass _ name superclass methods methods' hname hsuperclass hmethods =>
    rcases h.superclass hsuperclass with ⟨id, hid, hid'⟩ | ⟨f, f', hf, herror, herror'⟩
    · simp only [Machine.execStep, hid, hid']
      exact h.subclass hρ hname id hmethods
    · simp only [Machine.execStep, herror, herror']
      exact h.raise hf
  | ret => exact h.complete _
  | retValue he => exact (h.push .ret).eval he

end Machine.Matches

end ClassScript
