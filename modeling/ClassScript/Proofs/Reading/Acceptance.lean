import ClassScript.Proofs.Reading.Statement

/-! # Readers that take a phrase

A reader leads somewhere on some tokens before others if it does so at every cursor where they
stand.  Most often it accepts the tokens: it uses up just them, yields a value of the wanted sort
and records no error.  Behind a phrase that could go on, the next token has to stop it.
-/
namespace ClassScript.Read

open Grammar Rules

variable {α β γ : Type}

/-- What comes of a reader, given the end token and the errors before. -/
abbrev Goal (α : Type) : Type :=
  Token → Array GrammarError → Option (Except GrammarError α × Cursor) → Prop

def Leads (r : Read α) (w rest : List Token) (goal : Goal α) : Prop :=
  ∀ last c, c.rest = w ++ rest → goal last c.errors (r last c)

/-- A good value, `rest` left over and no new error. -/
def yielded (rest : List Token) (good : α → Prop) : Goal α := fun _ errors result =>
  ∃ a c', result = some (.ok a, c') ∧ c'.rest = rest ∧ c'.errors = errors ∧ good a

/-- The reader uses up `w` where `rest` follows, without an error, and yields a good value. -/
def Accepts (r : Read α) (w rest : List Token) (good : α → Prop) : Prop :=
  Leads r w rest (yielded rest good)

/-- No token of these kinds comes next. -/
def Stopped (kinds : List Token.Kind) (rest : List Token) : Prop :=
  ∀ t ts, rest = t :: ts → t.kind ∉ kinds

theorem Stopped.mono {kinds kinds' : List Token.Kind} {rest : List Token} (h : Stopped kinds rest)
    (hsub : kinds' ⊆ kinds) : Stopped kinds' rest :=
  fun t ts hrest ht => h t ts hrest (hsub ht)

theorem stopped_nil (kinds : List Token.Kind) : Stopped kinds [] := by simp [Stopped]

theorem stopped_cons {kinds : List Token.Kind} {t : Token} {ts : List Token} :
    Stopped kinds (t :: ts) ↔ t.kind ∉ kinds := by
  simp [Stopped]

namespace Leads

variable {r : Read α} {f : α → Read β} {u v w rest : List Token} {P : α → Prop} {goal : Goal β}
  {kinds : List Token.Kind} {kind : Token.Kind}

theorem bind (h : Accepts r u (v ++ rest) P) (hf : ∀ a, P a → Leads (f a) v rest goal) :
    Leads (r >>= f) (u ++ v) rest goal := by
  intro last c hrest
  obtain ⟨a, c₁, hr, hrest₁, herrors₁, ha⟩ := h last c (by rw [hrest, List.append_assoc])
  have hgoal := hf a ha last c₁ hrest₁
  rw [herrors₁] at hgoal
  simpa [Bind.bind, Read.bind, hr] using hgoal

/-- No token is left for what follows. -/
theorem bindAll (h : Accepts r w rest P) (hf : ∀ a, P a → Leads (f a) [] rest goal) :
    Leads (r >>= f) w rest goal := by
  have hbind := bind (v := []) h hf
  rwa [List.append_nil] at hbind

theorem bindMap {g : α → γ} {f : γ → Read β} (h : Accepts r u (v ++ rest) P)
    (hf : ∀ a, P a → Leads (f (g a)) v rest goal) : Leads (g <$> r >>= f) (u ++ v) rest goal := by
  intro last c hrest
  obtain ⟨a, c₁, hr, hrest₁, herrors₁, ha⟩ := h last c (by rw [hrest, List.append_assoc])
  have hgoal := hf a ha last c₁ hrest₁
  rw [herrors₁] at hgoal
  simpa [Functor.map, Bind.bind, Read.bind, Read.pure, Pure.pure, hr] using hgoal

theorem bindFreshId {f : Nat → Read β} (h : ∀ id, Leads (f id) w rest goal) :
    Leads (freshId >>= f) w rest goal :=
  fun last c hrest => h c.nextId last { c with nextId := c.nextId + 1 } hrest

theorem bindTakeIf {p : Token → Bool} {f : Option Token → Read β} {t : Token} (ht : p t = true)
    (h : Leads (f (some t)) w rest goal) : Leads (acceptIf p >>= f) (t :: w) rest goal := by
  intro last c hrest
  have heq : (acceptIf p >>= f) last c = f (some t) last { c with rest := w ++ rest } := by
    simp [Bind.bind, Read.bind, acceptIf, hrest, ht]
  rw [heq]
  exact h last { c with rest := w ++ rest } rfl

theorem bindSkipIf {p : Token → Bool} {f : Option Token → Read β}
    (hstop : ∀ t ts, w ++ rest = t :: ts → p t = false) (h : Leads (f none) w rest goal) :
    Leads (acceptIf p >>= f) w rest goal := by
  intro last c hrest
  have heq : (acceptIf p >>= f) last c = f none last c := by
    cases hwr : w ++ rest with
    | nil => simp [Bind.bind, Read.bind, acceptIf, hrest, hwr]
    | cons t ts => simp [Bind.bind, Read.bind, acceptIf, hrest, hwr, hstop t ts hwr]
  rw [heq]
  exact h last c hrest

theorem bindTakeAny {f : Option Token → Read β} {t : Token} (ht : t.kind ∈ kinds)
    (h : Leads (f (some t)) w rest goal) : Leads (acceptAny kinds >>= f) (t :: w) rest goal :=
  bindTakeIf (by simpa using ht) h

theorem bindSkipAny {f : Option Token → Read β} (hstop : Stopped kinds (w ++ rest))
    (h : Leads (f none) w rest goal) : Leads (acceptAny kinds >>= f) w rest goal :=
  bindSkipIf (fun t ts hwr => by simpa using hstop t ts hwr) h

theorem bindTake {f : Option Token → Read β} {t : Token} (ht : t.kind = kind)
    (h : Leads (f (some t)) w rest goal) : Leads (accept kind >>= f) (t :: w) rest goal :=
  bindTakeIf (by simpa using ht) h

theorem bindSkip {f : Option Token → Read β} (hstop : Stopped [kind] (w ++ rest))
    (h : Leads (f none) w rest goal) : Leads (accept kind >>= f) w rest goal :=
  bindSkipIf (fun t ts hwr => by simpa using hstop t ts hwr) h

theorem bindExpect {f : Token → Read β} {t : Token} {cause : GrammarCause} (ht : t.kind = kind)
    (h : Leads (f t) w rest goal) : Leads (expect kind cause >>= f) (t :: w) rest goal := by
  intro last c hrest
  have heq : (expect kind cause >>= f) last c = f t last { c with rest := w ++ rest } := by
    simp [expect, accept, TokenReader.acceptIf, Bind.bind, Read.bind, acceptIf, Pure.pure,
      Read.pure, hrest, ht]
  rw [heq]
  exact h last { c with rest := w ++ rest } rfl

theorem bindSees {f : Bool → Read β}
    (h : Leads (f (((w ++ rest).head?.map Token.kind) == some kind)) w rest goal) :
    Leads (sees kind >>= f) w rest goal := by
  intro last c hrest
  have hgoal := h last c hrest
  rwa [← hrest] at hgoal

theorem bindAtEnd {f : Bool → Read β} (h : Leads (f (w ++ rest).isEmpty) w rest goal) :
    Leads (atEnd >>= f) w rest goal := by
  intro last c hrest
  have hgoal := h last c hrest
  rwa [← hrest] at hgoal

end Leads

namespace Accepts

variable {r : Read α} {w rest : List Token} {P : α → Prop} {Q : β → Prop}

theorem mono (h : Accepts r w rest P) {P' : α → Prop} (hP : ∀ a, P a → P' a) :
    Accepts r w rest P' := by
  intro last c hrest
  obtain ⟨a, c', hr, hrest', herrors, ha⟩ := h last c hrest
  exact ⟨a, c', hr, hrest', herrors, hP a ha⟩

theorem pure {a : α} (h : P a) : Accepts (Pure.pure a) [] rest P :=
  fun _ c hrest => ⟨a, c, rfl, hrest, rfl, h⟩

/-- The last part of a reader: its value is wrapped up. -/
theorem wrap {g : α → β} (h : Accepts r w rest P) (hg : ∀ a, P a → Q (g a)) :
    Accepts (r >>= fun a => Pure.pure (g a)) w rest Q :=
  Leads.bindAll h fun a ha => pure (hg a ha)

theorem map {g : α → β} (h : Accepts r w rest P) (hg : ∀ a, P a → Q (g a)) :
    Accepts (g <$> r) w rest Q :=
  h.wrap hg

theorem recovering {P : Option α → Prop} (h : Accepts r w rest fun a => P (some a)) :
    Accepts (Read.recovering r) w rest P := by
  intro last c hrest
  obtain ⟨a, c', hr, hrest', herrors, ha⟩ := h last c hrest
  exact ⟨some a, c', by simp [Read.recovering, hr], hrest', herrors, ha⟩

end Accepts

end ClassScript.Read
