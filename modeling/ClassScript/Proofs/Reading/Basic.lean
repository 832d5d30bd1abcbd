import ClassScript.Program.Statement

/-! # What readers promise

A reader meets a promise at a cursor if it does not run out of depth there, only moves the cursor
forward, and yields no value that breaks the promise.  The promise speaks of the tokens that were
used up, the value and the cursor behind them.  There is one rule for each way in which readers are
put together.
-/
namespace ClassScript.Read

open Rules

variable {α β : Type} {last : Token} {c : Cursor}

instance : LawfulMonad Read := by
  apply LawfulMonad.mk' Read
  case id_map =>
    intro α r
    funext last c
    simp only [Functor.map, Read.bind]
    cases r last c with
    | none => rfl
    | some result => obtain ⟨_ | a, c'⟩ := result <;> rfl
  case pure_bind =>
    intro α β a f
    rfl
  case bind_assoc =>
    intro α β γ r f g
    funext last c
    simp only [Bind.bind, Read.bind]
    cases r last c with
    | none => rfl
    | some result => obtain ⟨_ | a, c'⟩ := result <;> rfl

/-- From one cursor to a later one: some tokens are used up, and errors and identities only grow. -/
structure Advances (c : Cursor) (used : List Token) (c' : Cursor) : Prop where
  rest : c.rest = used ++ c'.rest
  errors : c.errors.toList <+: c'.errors.toList
  nextId : c.nextId ≤ c'.nextId

theorem Advances.refl (c : Cursor) : Advances c [] c := ⟨rfl, List.prefix_rfl, Nat.le_refl _⟩

theorem Advances.trans {c c' c'' : Cursor} {u v : List Token} (h : Advances c u c')
    (h' : Advances c' v c'') : Advances c (u ++ v) c'' where
  rest := by rw [h.rest, h'.rest, List.append_assoc]
  errors := h.errors.trans h'.errors
  nextId := Nat.le_trans h.nextId h'.nextId

theorem Advances.skip {c c' : Cursor} {t : Token} {ts used : List Token} (hrest : c.rest = t :: ts)
    (h : Advances { c with rest := ts } used c') : Advances c (t :: used) c' where
  rest := by rw [hrest, List.cons_append, ← h.rest]
  errors := h.errors
  nextId := h.nextId

theorem Advances.length {c c' : Cursor} {used : List Token} (h : Advances c used c') :
    c.rest.length = used.length + c'.rest.length := by
  rw [h.rest, List.length_append]

/-- If no error was recorded from start to end, none was recorded on either part of the way. -/
theorem Advances.quiet {c c' c'' : Cursor} {u v : List Token} (h : Advances c u c')
    (h' : Advances c' v c'') (heq : c''.errors = c.errors) :
    c'.errors = c.errors ∧ c''.errors = c'.errors := by
  have hle := h.errors.length_le
  have hle' := h'.errors.length_le
  have hlen : c''.errors.toList.length = c.errors.toList.length := by rw [heq]
  have hfirst : c.errors.toList = c'.errors.toList := h.errors.eq_of_length (by omega)
  have hsecond : c'.errors.toList = c''.errors.toList := h'.errors.eq_of_length (by omega)
  exact ⟨(Array.toList_inj.1 hfirst).symm, (Array.toList_inj.1 hsecond).symm⟩

/-- Behind a recorded error the errors are never again what they were. -/
theorem Advances.loud {c c' : Cursor} {used : List Token} {e : GrammarError}
    (h : Advances { c with errors := c.errors.push e } used c') : c'.errors ≠ c.errors := by
  intro heq
  have hle := h.errors.length_le
  simp only [heq, Array.length_toList, Array.size_push] at hle
  omega

theorem Advances.push_ne {c c' : Cursor} {used : List Token} (h : Advances c used c')
    (e : GrammarError) : c'.errors.push e ≠ c.errors := by
  intro heq
  have hle := h.errors.length_le
  simp only [← heq, Array.length_toList, Array.size_push] at hle
  omega

/-- The reader stops, moves forward and keeps the promise about what it yields. -/
def Meets (r : Read α) (last : Token) (c : Cursor)
    (promise : List Token → α → Cursor → Prop) : Prop :=
  ∃ result c' used, r last c = some (result, c') ∧ Advances c used c' ∧
    ∀ a, result = .ok a → promise used a c'

namespace Meets

variable {r : Read α} {f : α → Read β} {P P' : List Token → α → Cursor → Prop}
  {Q : List Token → β → Cursor → Prop}

theorem mono (h : Meets r last c P)
    (hP : ∀ used a c', Advances c used c' → P used a c' → P' used a c') : Meets r last c P' := by
  obtain ⟨result, c', used, hr, hadv, hok⟩ := h
  exact ⟨result, c', used, hr, hadv, fun a ha => hP used a c' hadv (hok a ha)⟩

theorem bind (h : Meets r last c P)
    (hf : ∀ used a c', Advances c used c' → P used a c' →
      Meets (f a) last c' fun used' b c'' => Q (used ++ used') b c'') :
    Meets (r >>= f) last c Q := by
  obtain ⟨result, c', used, hr, hadv, hok⟩ := h
  cases result with
  | error e => exact ⟨.error e, c', used, by simp [Bind.bind, Read.bind, hr], hadv, by simp⟩
  | ok a =>
    obtain ⟨result, c'', used', hr', hadv', hok'⟩ := hf used a c' hadv (hok a rfl)
    exact ⟨result, c'', used ++ used', by simp [Bind.bind, Read.bind, hr, hr'],
      hadv.trans hadv', hok'⟩

theorem pure {a : α} (h : P [] a c) : Meets (Pure.pure a) last c P :=
  ⟨.ok a, c, [], rfl, .refl c, fun b hb => by
    obtain rfl : a = b := by simpa using hb
    exact h⟩

theorem bindPure {a : α} (h : Meets (f a) last c Q) : Meets (Pure.pure a >>= f) last c Q := h

theorem map {g : α → β} (h : Meets r last c fun used a c' => Q used (g a) c') :
    Meets (g <$> r) last c Q :=
  h.bind fun used a c' _ ha => Meets.pure (by simpa using ha)

theorem bindMap {γ : Type} {g : α → γ} {f : γ → Read β} (h : Meets r last c P)
    (hf : ∀ used a c', Advances c used c' → P used a c' →
      Meets (f (g a)) last c' fun used' b c'' => Q (used ++ used') b c'') :
    Meets (g <$> r >>= f) last c Q := by
  rw [bind_map_left]
  exact h.bind hf

theorem fail {token : Token} {cause : GrammarCause} : Meets (Read.fail token cause) last c P :=
  ⟨_, c, [], rfl, .refl c, by simp⟩

/-! The rules below treat a small reader together with what follows it. -/

theorem bindNote {token : Token} {cause : GrammarCause} {f : Unit → Read β}
    (h : Meets (f ()) last { c with errors := c.errors.push ⟨token, cause⟩ } Q) :
    Meets (Read.note token cause >>= f) last c Q := by
  obtain ⟨result, c', used, hr, hadv, hok⟩ := h
  refine ⟨result, c', used, hr, ?_, hok⟩
  refine ⟨hadv.rest, List.IsPrefix.trans ?_ hadv.errors, hadv.nextId⟩
  rw [Array.toList_push]
  exact List.prefix_append _ _

theorem bindFreshId {f : Nat → Read β}
    (h : Meets (f c.nextId) last { c with nextId := c.nextId + 1 } Q) :
    Meets (Read.freshId >>= f) last c Q := by
  obtain ⟨result, c', used, hr, hadv, hok⟩ := h
  exact ⟨result, c', used, hr, ⟨hadv.rest, hadv.errors, Nat.le_of_succ_le hadv.nextId⟩, hok⟩

theorem bindPeek {f : Token → Read β} (h : Meets (f (c.rest.headD last)) last c Q) :
    Meets (Read.peek >>= f) last c Q :=
  h

theorem bindSees {kind : Token.Kind} {f : Bool → Read β}
    (h : Meets (f ((c.rest.head?.map Token.kind) == some kind)) last c Q) :
    Meets (Read.sees kind >>= f) last c Q :=
  h

theorem bindAtEnd {f : Bool → Read β} (h : Meets (f c.rest.isEmpty) last c Q) :
    Meets (Read.atEnd >>= f) last c Q :=
  h

theorem bindAcceptIf {p : Token → Bool} {f : Option Token → Read β}
    (hsome : ∀ t ts, c.rest = t :: ts → p t = true →
      Meets (f (some t)) last { c with rest := ts } fun used => Q (t :: used))
    (hnone : (∀ t ts, c.rest = t :: ts → p t = false) → Meets (f none) last c Q) :
    Meets (Read.acceptIf p >>= f) last c Q := by
  cases hrest : c.rest with
  | nil =>
    have heq : (Read.acceptIf p >>= f) last c = f none last c := by
      simp [Bind.bind, Read.bind, Read.acceptIf, hrest]
    rw [Meets, heq]
    exact hnone (by simp [hrest])
  | cons t ts =>
    by_cases ht : p t = true
    · have heq : (Read.acceptIf p >>= f) last c = f (some t) last { c with rest := ts } := by
        simp [Bind.bind, Read.bind, Read.acceptIf, hrest, ht]
      obtain ⟨result, c', used, hr, hadv, hok⟩ := hsome t ts hrest ht
      exact ⟨result, c', t :: used, heq.trans hr, hadv.skip hrest, hok⟩
    · have heq : (Read.acceptIf p >>= f) last c = f none last c := by
        simp [Bind.bind, Read.bind, Read.acceptIf, hrest, ht]
      rw [Meets, heq]
      exact hnone (by simp [hrest, ht])

theorem bindAccept {kind : Token.Kind} {f : Option Token → Read β}
    (hsome : ∀ t ts, c.rest = t :: ts → t.kind = kind →
      Meets (f (some t)) last { c with rest := ts } fun used => Q (t :: used))
    (hnone : (∀ t ts, c.rest = t :: ts → t.kind ≠ kind) → Meets (f none) last c Q) :
    Meets (accept kind >>= f) last c Q :=
  bindAcceptIf (fun t ts hrest ht => hsome t ts hrest (by simpa using ht))
    (fun h => hnone fun t ts hrest => by simpa using h t ts hrest)

theorem bindAcceptAny {kinds : List Token.Kind} {f : Option Token → Read β}
    (hsome : ∀ t ts, c.rest = t :: ts → t.kind ∈ kinds →
      Meets (f (some t)) last { c with rest := ts } fun used => Q (t :: used))
    (hnone : (∀ t ts, c.rest = t :: ts → t.kind ∉ kinds) → Meets (f none) last c Q) :
    Meets (acceptAny kinds >>= f) last c Q :=
  bindAcceptIf (fun t ts hrest ht => hsome t ts hrest (by simpa using ht))
    (fun h => hnone fun t ts hrest => by simpa using h t ts hrest)

theorem bindExpect {kind : Token.Kind} {cause : GrammarCause} {f : Token → Read β}
    (h : ∀ t ts, c.rest = t :: ts → t.kind = kind →
      Meets (f t) last { c with rest := ts } fun used => Q (t :: used)) :
    Meets (expect kind cause >>= f) last c Q := by
  rw [expect, bind_assoc]
  refine bindAccept (fun t ts hrest ht => bindPure (h t ts hrest ht)) fun _ => ?_
  rw [bind_assoc]
  exact bindPeek ⟨_, c, [], rfl, .refl c, by simp⟩

/-- Reading resumes behind at least one token. -/
theorem resume_suffix (ts : List Token) :
    ∃ used, ts = used ++ resume ts ∧ (ts ≠ [] → used ≠ []) := by
  induction ts with
  | nil => exact ⟨[], rfl, id⟩
  | cons t ts ih =>
    rw [resume]
    split
    · exact ⟨[t], rfl, by simp⟩
    · obtain ⟨used, hused, _⟩ := ih
      exact ⟨t :: used, by rw [List.cons_append, ← hused], by simp⟩

/-- A failure becomes a recorded error, behind at least one token; a value stays what it is. -/
theorem recovering {P : List Token → Option α → Cursor → Prop}
    (h : Meets r last c fun used a c' => P used (some a) c')
    (herror : ∀ used c', Advances c used c' → c'.errors ≠ c.errors →
      (c.rest ≠ [] → used ≠ []) → P used none c') :
    Meets (Read.recovering r) last c P := by
  obtain ⟨result, c', used, hr, hadv, hok⟩ := h
  cases result with
  | ok a =>
    refine ⟨.ok (some a), c', used, by simp [Read.recovering, hr], hadv, fun b hb => ?_⟩
    obtain rfl : some a = b := by simpa using hb
    exact hok a rfl
  | error e =>
    obtain ⟨skipped, hskipped, hprogress⟩ := resume_suffix c'.rest
    let c'' : Cursor := { c' with rest := resume c'.rest, errors := c'.errors.push e }
    have hadv' : Advances c' skipped c'' := by
      refine ⟨hskipped, ?_, Nat.le_refl _⟩
      rw [Array.toList_push]
      exact List.prefix_append _ _
    refine ⟨.ok none, c'', used ++ skipped, by simp [Read.recovering, hr, c''],
      hadv.trans hadv', fun b hb => ?_⟩
    obtain rfl : none = b := by simpa using hb
    refine herror _ _ (hadv.trans hadv') (fun heq => ?_) fun hne hnil => ?_
    · have hsize := congrArg Array.size (hadv.quiet hadv' heq).2
      simp [c''] at hsize
    · simp only [List.append_eq_nil_iff] at hnil
      have hrest := hadv.rest
      rw [hnil.1, List.nil_append] at hrest
      exact hprogress (hrest ▸ hne) hnil.2

end Meets

end ClassScript.Read
