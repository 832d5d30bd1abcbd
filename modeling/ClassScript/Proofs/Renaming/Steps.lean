import ClassScript.Proofs.Evaluation.Preservation
import ClassScript.Proofs.Renaming.Machine

/-! # Steps of machines that are alike

Two machines that are alike are alike after one step, and so after any number of steps.
-/
namespace ClassScript

open Store (Marked Later)

namespace Machine.Matches

variable {ρ : Renaming} {T : Tags} {marks : List Bool} {m m' : Machine} {host : Host}

/-- A value reaches frames that are alike.  Both machines drop a frame that waits for something
else. -/
theorem takeValue (hρ : ρ.Proper) (h : Matches ρ T marks m m')
    (hcontrol : m.control.Alike ρ marks m'.control) {f f' : Frame} (hf : f.Alike ρ marks f')
    (v : Value) :
    Machine.Alike ρ (m.takeValue host v f) (m'.takeValue host v f') := by
  cases hf with
  | unary => exact h.settleSame _
  | left he => exact (h.push .right).eval he
  | right => exact h.binary hρ _ _ v
  | logical he =>
    simp only [Machine.takeValue]
    split
    · exact h.yield v
    · exact h.eval he
  | assign hname => exact h.assign hname v
  | callee hes => exact h.arguments hρ host v _ [] hes
  | argument hes => exact h.arguments hρ host _ _ _ hes
  | get =>
    cases v with
    | object id => exact h.property hρ id _
    | _ => exact h.raiseSame _
  | setObject he =>
    cases v with
    | object id => exact (h.push .setField).eval he
    | _ => exact h.raiseSame _
  | @setField object name =>
    have hobjects := h.world.store.objects
    have hworld : World.Alike ρ T (m.world.setField object name.lexeme v)
        (m'.world.setField object name.lexeme v) := by
      refine h.world.withStore ?_
      rw [Store.setField, Store.setField, hobjects]
      exact h.world.store.withObjects _
    exact (h.later (w := m.world.setField object name.lexeme v) (.ofScopes T rfl) hworld).yield v
  | construct => exact h.yield _
  | «show» =>
    simp only [Machine.takeValue, h.world.store.text]
    exact h.yieldText _
  | discard => exact h.complete _
  | printValue => exact (h.push .printText).render hρ v
  | define hname => exact h.declared (.refl T _) h.world hname v
  | ifThen hs =>
    simp only [Machine.takeValue]
    split
    · exact h.exec hs
    · exact h.complete _
  | ifElse hs ht =>
    simp only [Machine.takeValue]
    split
    · exact h.exec hs
    · exact h.exec ht
  | loopTest hc hs =>
    simp only [Machine.takeValue]
    split
    · exact (h.push (.loopBody hc hs)).exec hs
    · exact h.complete _
  | ret => exact h.complete _
  | append | printText | loopBody | body => exact ⟨T, marks, h, hcontrol⟩

theorem takeText (h : Matches ρ T marks m m') (hcontrol : m.control.Alike ρ marks m'.control)
    {f f' : Frame} (hf : f.Alike ρ marks f') (text : String) :
    Machine.Alike ρ (m.takeText host text f) (m'.takeText host text f') := by
  cases hf with
  | append => exact h.yield _
  | printText =>
    obtain ⟨hworld, hrefusal⟩ := h.world.print host text
    have hprinted := h.later (w := (m.world.print host text).1) (.ofScopes T rfl) hworld
    simp only [Machine.takeText]
    generalize m.world.print host text = printed, m'.world.print host text = printed' at *
    obtain ⟨w, refusal⟩ := printed
    obtain ⟨w', refusal'⟩ := printed'
    obtain rfl : refusal' = refusal := hrefusal
    cases refusal' with
    | none => exact hprinted.complete .normal
    | some message => exact hprinted.raiseSame (.sink message)
  | _ => exact ⟨T, marks, h, hcontrol⟩

theorem callResult (hρ : ρ.Proper) (h : Matches ρ T marks m m') {f f' : Closure}
    (hscope : f'.scope = f.scope) (hinitializer : f'.isInitializer = f.isInitializer)
    (hname : f'.declaration.name = f.declaration.name) (c : Completion) :
    m'.callResult f' c = m.callResult f c := by
  have hthis : m'.world.store.own? f.scope "this" = m.world.store.own? f.scope "this" := by
    have hnames := h.world.store.names f.scope "this" hρ.new.1.symm
    rwa [hρ.name_this] at hnames
  simp only [Machine.callResult, hscope, hinitializer, hname, hthis]

theorem takeDone (hρ : ρ.Proper) (h : Matches ρ T marks m m')
    (hcontrol : m.control.Alike ρ marks m'.control) {f f' : Frame} (hf : f.Alike ρ marks f')
    (c : Completion) : Machine.Alike ρ (m.takeDone c f) (m'.takeDone c f') := by
  cases hf with
  | loopBody hc hs =>
    cases c with
    | normal => exact (h.push (.loopTest hc hs)).eval hc
    | returned v => exact h.complete _
  | body hscope hinitializer hname =>
    simp only [Machine.takeDone, h.callResult hρ hscope hinitializer hname]
    exact h.settleSame _
  | _ => exact ⟨T, marks, h, hcontrol⟩

theorem takeFault (h : Matches ρ T marks m m') {f f' : Frame} (hf : f.Alike ρ marks f')
    {fault fault' : Fault} (hfault : Fault.Alike ρ fault fault') :
    Machine.Alike ρ (m.takeFault fault f) (m'.takeFault fault' f') := by
  have hraise := h.raise hfault
  cases hf <;> exact hraise

end Machine.Matches

namespace Machine

variable {ρ : Renaming} {m m' : Machine} {host : Host}

/-- No statement list waits for a value. -/
theorem Sound.not_sequence_value {R : Recorded} (h : m.Sound R) {v : Value} {rest : List Stmt}
    {outer : Nat} {fs : List Frame} (hcontrol : m.control = .value v)
    (hframes : m.frames = .sequence rest outer :: fs) : False := by
  cases h with
  | value _ hat =>
    have hstack := hat.stack
    rw [hframes] at hstack
    cases hstack with
    | frame hf _ => cases hf
  | eval h' | exec h' | text h' | done h' | fault h' => simp [h'] at hcontrol

theorem Sound.not_sequence_text {R : Recorded} (h : m.Sound R) {text : String} {rest : List Stmt}
    {outer : Nat} {fs : List Frame} (hcontrol : m.control = .text text)
    (hframes : m.frames = .sequence rest outer :: fs) : False := by
  cases h with
  | text _ hat =>
    have hstack := hat.stack
    rw [hframes] at hstack
    cases hstack with
    | frame hf _ => cases hf
  | eval h' | exec h' | value h' | done h' | fault h' => simp [h'] at hcontrol

/-- One step.  That the first machine is in order rules out frames that wait for something else. -/
theorem Alike.step (hρ : ρ.Proper) {R : Recorded} (hsound : m.Sound R) (h : Machine.Alike ρ m m') :
    Machine.Alike ρ (m.step host) (m'.step host) := by
  obtain ⟨T, marks, hmatches, hcontrol⟩ := h
  obtain ⟨control, frames, scope, world⟩ := m
  obtain ⟨control', frames', scope', world'⟩ := m'
  obtain ⟨hworld, hscope, hmarked, hframes⟩ := hmatches
  obtain rfl : scope' = scope := hscope
  have hbelow {c c' : Control} {fs fs' : List Frame}
      (hfs : FramesAlike ρ T world.store marks fs fs') :
      Matches ρ T marks ⟨c, fs, scope', world⟩ ⟨c', fs', scope', world'⟩ :=
    ⟨hworld, rfl, hmarked, hfs⟩
  cases hcontrol with
  | eval he => exact (hbelow hframes).evalStep hρ he
  | exec hs => exact (hbelow hframes).execStep hρ hs
  | value =>
    cases hframes with
    | nil => exact ⟨T, marks, hbelow .nil, .value⟩
    | cons hf hfs => exact (hbelow hfs).takeValue hρ .value hf _
    | sequence => exact (hsound.not_sequence_value rfl rfl).elim
  | text =>
    cases hframes with
    | nil => exact ⟨T, marks, hbelow .nil, .text⟩
    | cons hf hfs => exact (hbelow hfs).takeText .text hf _
    | sequence => exact (hsound.not_sequence_text rfl rfl).elim
  | @done c =>
    cases hframes with
    | nil => exact ⟨T, marks, hbelow .nil, .done⟩
    | cons hf hfs => exact (hbelow hfs).takeDone hρ .done hf _
    | @sequence _ outerMarks _ _ _ _ _ hrest houter hfs =>
      cases c with
      | returned v => exact ⟨T, outerMarks, ⟨hworld, rfl, houter, hfs⟩, .done⟩
      | normal =>
        cases hrest with
        | nil => exact ⟨T, outerMarks, ⟨hworld, rfl, houter, hfs⟩, .done⟩
        | cons hs hss => exact ⟨T, marks, hbelow (.sequence hss houter hfs), .exec hs⟩
  | @fault fault fault' hfault =>
    cases hframes with
    | nil => exact ⟨T, marks, hbelow .nil, .fault hfault⟩
    | @cons _ _ _ fs fs' hf hfs =>
      have hmatches : Matches ρ T marks ⟨.fault fault, fs, scope', world⟩
          ⟨.fault fault', fs', scope', world'⟩ := hbelow hfs
      exact hmatches.takeFault hf hfault
    | sequence hrest houter hfs =>
      obtain ⟨hreport, hruntime⟩ := hfault.report
      exact ⟨T, marks, ⟨hworld.report hreport hruntime, rfl, hmarked, .sequence hrest houter hfs⟩,
        .done⟩

theorem Alike.isFinal (h : Machine.Alike ρ m m') : m'.isFinal = m.isFinal := by
  obtain ⟨T, marks, hmatches, hcontrol⟩ := h
  have hempty : m'.frames.isEmpty = m.frames.isEmpty := by
    have hframes := hmatches.frames
    generalize m.frames = fs, m'.frames = fs' at hframes
    cases hframes <;> rfl
  unfold Machine.isFinal
  rw [hempty]
  generalize m.control = c, m'.control = c' at hcontrol
  cases hcontrol <;> rfl

/-- Two machines that are alike run equally long and end alike. -/
theorem Alike.run (host : Host) (hρ : ρ.Proper) {R : Recorded} (hsound : m.Sound R)
    (h : Machine.Alike ρ m m') (n : Nat) :
    Option.Rel (Machine.Alike ρ) (m.run host n) (m'.run host n) := by
  induction n generalizing m m' with
  | zero => exact .none
  | succ n ih =>
    rw [Machine.run, Machine.run, h.isFinal]
    split
    · exact .some h
    · exact ih hsound.step (h.step hρ hsound)

end Machine

end ClassScript
