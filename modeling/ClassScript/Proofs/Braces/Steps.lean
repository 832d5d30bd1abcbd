import ClassScript.Proofs.Braces.Machine
import ClassScript.Proofs.Evaluation.Onward
import ClassScript.Proofs.Evaluation.Stepping

/-! # Steps with braces and without them

Each step of the machine without braces is one step of the machine with them, and besides those that
lead into braces, before a statement, and out of braces, when a statement has ended.  This is so as
long as there is no fault: a fault inside braces is reported there, and what stands around them,
such as a loop, goes on.  A machine with a fault on its way ends with a report.
-/
namespace ClassScript

namespace Machine

variable {m z : Machine} {host : Host}

/-- Something has gone wrong, and it has been reported or will be. -/
def Faulty (m : Machine) : Prop := (∃ f, m.control = .fault f) ∨ ¬m.world.Clean

theorem Faulty.step (h : m.Faulty) (hm : m.Regular) : (m.step host).Faulty := by
  rcases hm.step_cases host with ⟨f, rest, outer, fs, -, -, hstep⟩ | ⟨honward, hfault⟩
  · have hruntime : f.report.isRuntime = true := by cases f <;> rfl
    rw [hstep]
    exact .inr (World.not_clean_report hruntime)
  · refine h.imp (fun ⟨f, hf⟩ => ⟨f, hfault f hf⟩) fun hdirty => ?_
    rwa [World.Clean, honward.log]

/-- A machine that ends as it should after something has gone wrong has reported it. -/
theorem Faulty.ends {R : Recorded} (h : m.Faulty) (hm : m.Sound R) (hends : Ends host m z)
    {c : Completion} (hz : z.control = .done c) : ¬z.world.Clean := by
  obtain ⟨n, hn⟩ := hends
  induction n generalizing m with
  | zero => cases hn
  | succ n ih =>
    rw [Machine.run] at hn
    split at hn
    · obtain rfl : m = z := by simpa using hn
      refine h.resolve_left ?_
      rintro ⟨f, hf⟩
      rw [hf] at hz
      cases hz
    · exact ih (h.step hm.regular) hm.step hn

/-- Without a runtime report at the end there was no report at all. -/
theorem Sound.log_ends {R : Recorded} (hm : m.Sound R) (hends : Ends host m z) {c : Completion}
    (hz : z.control = .done c) (hclean : z.world.Clean) : z.world.log = m.world.log := by
  obtain ⟨n, hn⟩ := hends
  induction n generalizing m with
  | zero => cases hn
  | succ n ih =>
    cases hfinal : m.isFinal with
    | true =>
      rw [Machine.run, if_pos hfinal] at hn
      obtain rfl : m = z := by simpa using hn
      rfl
    | false =>
      have hlog := ih hm.step ((run_succ_of_step hfinal n).symm.trans hn)
      rcases hm.regular.step_cases host with ⟨f, rest, outer, fs, hf, -, -⟩ | ⟨honward, -⟩
      · exact absurd hclean (Faulty.ends (.inl ⟨f, hf⟩) hm ⟨n + 1, hn⟩ hz)
      · exact hlog.trans honward.log

end Machine

namespace Machine.Follows

variable {D D' : Distances} {ι : Twins} {σ : Nesting} {m m' : Machine} {host : Host}

/-- A value reaches two frames. -/
theorem takeValue (h : Follows D D' ι σ m m') (hcontrol : m.control.Nested D D' σ m'.control)
    {f f' : Frame} (hf : f.Nested D D' σ f') (v : Value) :
    Machine.Nested D D' (m.takeValue host v f) (m'.takeValue host v f') := by
  cases hf with
  | unary => exact h.settle _
  | left he => exact (h.push .right).eval he
  | right => exact h.binary _ _ v
  | logical he =>
    simp only [Machine.takeValue]
    split
    · exact h.yield v
    · exact h.eval he
  | assign href => exact h.assign href v
  | callee hes => exact h.arguments host v _ [] hes
  | argument hes => exact h.arguments host _ _ _ hes
  | get =>
    cases v with
    | object id => exact h.property id _
    | _ => exact h.raise _
  | setObject he =>
    cases v with
    | object id => exact (h.push .setField).eval he
    | _ => exact h.raise _
  | @setField object name =>
    have hobjects := h.world.store.objects
    have hworld : World.Nested D D' ι (m.world.setField object name.lexeme v)
        (m'.world.setField object name.lexeme v) := by
      refine h.world.withStore ?_
      rw [Store.setField, Store.setField, hobjects]
      exact h.world.store.withObjects _
    exact (h.later hworld (.ofScopes ι rfl rfl)).yield v
  | construct => exact h.yield _
  | «show» =>
    simp only [Machine.takeValue, h.world.store.text]
    exact h.yieldText _
  | discard => exact h.complete _
  | printValue => exact (h.push .printText).render v
  | define hσ => exact h.declared hσ h.world (.refl _ _ _) _ v
  | ifThen hs =>
    simp only [Machine.takeValue]
    split
    · exact h.exec hs
    · exact h.complete _
  | ifElse hs ht =>
    simp only [Machine.takeValue]
    split
    · exact h.exec hs
    · exact h.exec ht
  | loopTest hc hs =>
    simp only [Machine.takeValue]
    split
    · exact (h.push (.loopBody hc hs)).exec hs
    · exact h.complete _
  | ret => exact h.complete _
  | append | printText | loopBody => exact ⟨ι, σ, h, hcontrol⟩

theorem takeText (h : Follows D D' ι σ m m') (hcontrol : m.control.Nested D D' σ m'.control)
    {f f' : Frame} (hf : f.Nested D D' σ f') (text : String) :
    Machine.Nested D D' (m.takeText host text f) (m'.takeText host text f') := by
  cases hf with
  | append => exact h.yield _
  | printText =>
    obtain ⟨hworld, hrefusal⟩ := h.world.print host text
    have hprinted := h.later hworld (.ofScopes ι rfl rfl)
    simp only [Machine.takeText]
    generalize m.world.print host text = printed, m'.world.print host text = printed' at *
    obtain ⟨w, refusal⟩ := printed
    obtain ⟨w', refusal'⟩ := printed'
    obtain rfl : refusal' = refusal := hrefusal
    cases refusal' with
    | none => exact hprinted.complete .normal
    | some message => exact hprinted.raise (.sink message)
  | _ => exact ⟨ι, σ, h, hcontrol⟩

/-- The initializer of an instance is closed over the scope of its `this`, which has a twin. -/
theorem callResult (h : Follows D D' ι σ m m') {f f' : Closure}
    (hf : f.Nested D D' ι m.world.store m'.world.store [] f') (c : Completion) :
    m'.callResult f' c = m.callResult f c := by
  obtain ⟨τ, hτ, hpaired, -⟩ := hf.declaration
  obtain ⟨hknown, htwin⟩ := h.world.store.scopes.twin hpaired hτ
  have hthis := h.world.store.scopes.names f.scope "this" hknown
  simp only [Machine.callResult, hf.isInitializer, htwin, hthis, hf.same.1]

theorem takeDone (h : Follows D D' ι σ m m') (hcontrol : m.control.Nested D D' σ m'.control)
    {f f' : Frame} (hf : f.Nested D D' σ f') (c : Completion) :
    Machine.Nested D D' (m.takeDone c f) (m'.takeDone c f') := by
  cases hf with
  | loopBody hc hs =>
    cases c with
    | normal => exact (h.push (.loopTest hc hs)).eval hc
    | returned v => exact h.complete _
  | _ => exact ⟨ι, σ, h, hcontrol⟩

theorem takeBody (h : Follows D D' ι σ m m') {f f' : Closure}
    (hf : f.Nested D D' ι m.world.store m'.world.store [] f') (c : Completion) :
    Machine.Nested D D' (m.takeDone c (.body f)) (m'.takeDone c (.body f')) := by
  simp only [Machine.takeDone, h.callResult hf]
  exact h.settle _

/-- Two steps lead into braces, and the other machine stays where it is. -/
theorem enterBraces (h : Follows D D' ι σ m m') (c : Control) :
    Follows D D' ι (false :: σ) m
      { control := c
        frames := .sequence [] m'.scope :: m'.frames
        scope := m'.world.store.nextScope
        world := m'.world.addScope (some m'.scope) } := by
  have hlater := Twins.Later.addBraces ι m.world.store m'.world.store (some m'.scope)
  exact ⟨h.world.withStore (h.world.store.addBraces (some m'.scope)), h.paired.addBraces,
    .braces (h.paired.later hlater) (h.frames.later hlater)⟩

/-- Beginning to execute a statement, once all braces around it are entered. -/
theorem exec_advance (host : Host) {σ : Nesting} {s t : Stmt} {m' : Machine}
    (h : Follows D D' ι σ m m') (hs : Stmt.Nested D D' σ s t) (hcontrol : m'.control = .exec t) :
    ∃ n, Machine.Nested D D' (m.execStep s) (m'.advance host n) := by
  obtain ⟨control', frames', scope', world'⟩ := m'
  subst hcontrol
  cases hs with
  | @wrap _ _ t hs =>
    obtain ⟨n, hn⟩ := exec_advance host (h.enterBraces (.exec t)) hs rfl
    exact ⟨n + 2, hn⟩
  | expression he => exact ⟨1, (h.push .discard).eval he⟩
  | print he => exact ⟨1, (h.push .printValue).eval he⟩
  | declare hσ => exact ⟨1, h.declared hσ h.world (.refl _ _ _) _ .nil⟩
  | var hσ he => exact ⟨1, (h.push (.define hσ)).eval he⟩
  | block hbody => exact ⟨1, h.runInside h.paired [] [] hbody⟩
  | ifThen hc hs => exact ⟨1, (h.push (.ifThen hs)).eval hc⟩
  | ifElse hc hs ht => exact ⟨1, (h.push (.ifElse hs ht)).eval hc⟩
  | loop hc hs => exact ⟨1, (h.push (.loopTest hc hs)).eval hc⟩
  | function hσ hd => exact ⟨1, h.function hσ hd⟩
  | plainClass hσ hmethods => exact ⟨1, h.plainClass hσ _ hmethods⟩
  | subclass hσ href hmethods => exact ⟨1, h.derivedClass hσ _ href hmethods⟩
  | ret => exact ⟨1, h.complete _⟩
  | retValue he => exact ⟨1, (h.push .ret).eval he⟩
termination_by sizeOf t

/-- The end of a statement, once all braces around it are left. -/
theorem done_advance (host : Host) {c : Completion} {fs fs' : List Frame} {k k' : Nat}
    {w w' : World} (hworld : World.Nested D D' ι w w')
    (hpaired : ι.Paired w.store w'.store σ k k')
    (hframes : FramesNested D D' ι w.store w'.store σ k fs fs') :
    ∃ n, Machine.Nested D D' (Machine.step host ⟨.done c, fs, k, w⟩)
      (Machine.advance host n ⟨.done c, fs', k', w'⟩) := by
  have hbelow {control control' : Control} {τ : Nesting} {fs fs' : List Frame} {k k' : Nat}
      (hpaired : ι.Paired w.store w'.store τ k k')
      (hfs : FramesNested D D' ι w.store w'.store τ k fs fs') :
      Follows D D' ι τ ⟨control, fs, k, w⟩ ⟨control', fs', k', w'⟩ := ⟨hworld, hpaired, hfs⟩
  induction hframes generalizing k' with
  | nil => exact ⟨0, ι, _, hbelow hpaired .nil, .done⟩
  | cons hf hfs _ => exact ⟨1, (hbelow hpaired hfs).takeDone .done hf c⟩
  | body hf hfs _ => exact ⟨1, (hbelow hpaired hfs).takeBody hf c⟩
  | sequence hrest houter hfs _ =>
    refine ⟨1, ?_⟩
    cases c with
    | returned v => exact ⟨ι, _, hbelow houter hfs, .done⟩
    | normal =>
      cases hrest with
      | nil => exact ⟨ι, _, hbelow houter hfs, .done⟩
      | cons hs hss => exact ⟨ι, _, hbelow hpaired (.sequence hss houter hfs), .exec hs⟩
  | braces houter _ ih =>
    obtain ⟨n, hn⟩ := ih houter
    cases c <;> exact ⟨n + 1, hn⟩

/-- Where nothing is left to do without braces, only braces are left. -/
theorem done_final (host : Host) (h : Follows D D' ι σ m m') (hframes : m.frames = [])
    {c : Completion} (hcontrol : m'.control = .done c) :
    ∃ z, Machine.Ends host m' z ∧ z.control = .done c ∧ z.world = m'.world := by
  obtain ⟨control', fs', k', w'⟩ := m'
  subst hcontrol
  have hnested : FramesNested D D' ι m.world.store w'.store σ m.scope m.frames fs' := h.frames
  clear h
  generalize m.frames = fs, m.scope = k at hframes hnested
  induction hnested generalizing k' with
  | nil => exact ⟨_, (Machine.ends_of_final rfl).2 rfl, rfl, rfl⟩
  | @braces _ _ outer' _ _ _ _ ih =>
    obtain ⟨z, hends, hdone, hworld⟩ := ih outer' hframes
    refine ⟨z, (Machine.ends_step rfl).2 ?_, hdone, hworld⟩
    cases c <;> exact hends
  | cons | body | sequence => cases hframes

end Machine.Follows

namespace Machine

variable {D D' : Distances} {R R' : Recorded} {m m' : Machine} {host : Host}

/-- One step of the machine without braces, if it has no fault on its way. -/
theorem Nested.step (h : Machine.Nested D D' m m') (hm : m.Sound R) (hm' : m'.Sound R')
    (hfault : ∀ f, m.control ≠ .fault f) :
    ∃ n, Machine.Nested D D' (m.step host) (m'.advance host n) := by
  obtain ⟨ι, σ, hfollows, hcontrol⟩ := h
  have hregular := hm.regular
  have hregular' := hm'.regular
  obtain ⟨control, frames, scope, world⟩ := m
  obtain ⟨control', frames', scope', world'⟩ := m'
  have hbelow {c c' : Control} {fs fs' : List Frame}
      (hfs : FramesNested D D' ι world.store world'.store σ scope fs fs') :
      Follows D D' ι σ ⟨c, fs, scope, world⟩ ⟨c', fs', scope', world'⟩ :=
    ⟨hfollows.world, hfollows.paired, hfs⟩
  have hframes := hfollows.frames
  cases hcontrol with
  | eval he => exact ⟨1, hfollows.evalStep he⟩
  | exec hs => exact hfollows.exec_advance host hs rfl
  | @value v =>
    cases hframes with
    | nil => exact ⟨0, ι, σ, hbelow .nil, .value⟩
    | cons hf hfs => exact ⟨1, (hbelow hfs).takeValue .value hf v⟩
    | body _ hfs => exact ⟨1, ι, σ, hbelow hfs, .value⟩
    | sequence => exact nomatch hregular _ _ rfl (.inl ⟨v, rfl⟩)
    | braces => exact nomatch hregular' _ _ rfl (.inl ⟨v, rfl⟩)
  | @text text =>
    cases hframes with
    | nil => exact ⟨0, ι, σ, hbelow .nil, .text⟩
    | cons hf hfs => exact ⟨1, (hbelow hfs).takeText .text hf text⟩
    | body _ hfs => exact ⟨1, ι, σ, hbelow hfs, .text⟩
    | sequence => exact nomatch hregular _ _ rfl (.inr ⟨text, rfl⟩)
    | braces => exact nomatch hregular' _ _ rfl (.inr ⟨text, rfl⟩)
  | done => exact Follows.done_advance host hfollows.world hfollows.paired hframes
  | fault => exact absurd rfl (hfault _)

/-- If a program ends without a report, so does the program with braces, in a world with the same
output. -/
theorem Nested.ends (h : Machine.Nested D D' m m') (hm : m.Sound R) (hm' : m'.Sound R')
    {z : Machine} (hends : Ends host m z) {c : Completion} (hz : z.control = .done c)
    (hclean : z.world.Clean) :
    ∃ z' ι, Ends host m' z' ∧ z'.control = .done c ∧ World.Nested D D' ι z.world z'.world := by
  obtain ⟨n, hn⟩ := hends
  induction n generalizing m m' with
  | zero => cases hn
  | succ n ih =>
    cases hfinal : m.isFinal with
    | true =>
      rw [Machine.run, if_pos hfinal] at hn
      obtain rfl : m = z := by simpa using hn
      obtain ⟨ι, σ, hfollows, hcontrol⟩ := h
      have hframes : m.frames = [] := by simpa [Machine.isFinal, hz] using hfinal
      have hcontrol' : m'.control = .done c := by
        rw [hz] at hcontrol
        generalize m'.control = c' at hcontrol
        cases hcontrol
        rfl
      obtain ⟨z', hends, hdone, hworld⟩ := hfollows.done_final host hframes hcontrol'
      exact ⟨z', ι, hends, hdone, hworld ▸ hfollows.world⟩
    | false =>
      have hfault (f : Fault) : m.control ≠ .fault f := fun hf =>
        Faulty.ends (.inl ⟨f, hf⟩) hm ⟨n + 1, hn⟩ hz hclean
      rw [run_succ_of_step hfinal] at hn
      obtain ⟨k, hk⟩ := h.step hm hm' hfault
      obtain ⟨z', ι, hends, hdone, hworld⟩ := ih hk hm.step (hm'.advance host k) hn
      exact ⟨z', ι, ends_of_advance hends, hdone, hworld⟩

end Machine

end ClassScript
