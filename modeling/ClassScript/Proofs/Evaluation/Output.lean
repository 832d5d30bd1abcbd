import ClassScript.Evaluation.Output

/-! # What a sink has received

The text that a sink has received only grows, and by no more than what is written.  Once a sink that
does not recover has refused a write, its text stays as it is.
-/
namespace ClassScript

/-- A write that the sink refused. -/
def Event.isRefusal : Event → Bool
  | write _ accepted => !accepted
  | flush _ => false

namespace Output

/-- Some write has been refused. -/
def Refused (o : Output) : Prop := ∃ e ∈ o.events, e.isRefusal = true

instance (o : Output) : Decidable o.Refused :=
  inferInstanceAs (Decidable (∃ e ∈ o.events, e.isRefusal = true))

/-- Histories that come about by writing to a sink. -/
inductive By (sink : Sink) : Output → Prop where
  | empty : By sink {}
  | write {o : Output} (h : By sink o) (text : String) : By sink (o.write sink text).1

end Output

/-- A sink that refuses every write of some text after it has refused one. -/
def Sink.Sticky (sink : Sink) : Prop :=
  ∀ o text, Output.By sink o → o.Refused → text ≠ "" → (sink.refusesWrite o text).isSome

namespace Output

variable {sink sink' : Sink} {o : Output} {text : String}

theorem not_refused_empty : ¬Refused {} := by
  rintro ⟨e, he, -⟩
  simp at he

theorem refused_push (o : Output) (e : Event) :
    (o.push e).Refused ↔ o.Refused ∨ e.isRefusal = true := by
  simp only [Refused, push, Array.mem_push]
  constructor
  · rintro ⟨e', he' | rfl, hrefused⟩
    · exact .inl ⟨e', he', hrefused⟩
    · exact .inr hrefused
  · rintro (⟨e', he', hrefused⟩ | hrefused)
    · exact ⟨e', .inl he', hrefused⟩
    · exact ⟨e, .inr rfl, hrefused⟩

@[simp] theorem text_push (o : Output) (e : Event) : (o.push e).text = o.text ++ e.received := by
  simp [Output.text, Output.textSince, push, List.foldl_append]

@[simp] theorem newlines_push (o : Output) (e : Event) :
    (o.push e).newlines = o.newlines + e.received.toList.count '\n' := by
  simp [Output.newlines, push]

/-- A flush leaves the text as it is. -/
@[simp] theorem text_flush (sink : Sink) (o : Output) : (o.flush sink).1.text = o.text := by
  rw [Output.flush]
  split <;> simp [Event.received]

/-- A text is empty, or it is accepted or refused as a whole. -/
theorem write_cases (sink : Sink) (o : Output) (text : String) :
    (text = "" ∧ o.write sink text = (o, none)) ∨
    (text ≠ "" ∧ sink.refusesWrite o text = none ∧
      o.write sink text = (o.push (.write text true), none)) ∨
    ∃ message, text ≠ "" ∧ sink.refusesWrite o text = some message ∧
      o.write sink text = (o.push (.write text false), some message) := by
  by_cases hempty : text = ""
  · exact .inl ⟨hempty, by simp [Output.write, hempty]⟩
  · cases hrefuses : sink.refusesWrite o text with
    | none => exact .inr (.inl ⟨hempty, rfl, by simp [Output.write, hempty, hrefuses]⟩)
    | some message =>
      exact .inr (.inr ⟨message, hempty, rfl, by simp [Output.write, hempty, hrefuses]⟩)

/-- A write that is refused leaves the text as it is. -/
theorem text_write_refused {message : String} (h : (o.write sink text).2 = some message) :
    (o.write sink text).1.Refused ∧ (o.write sink text).1.text = o.text := by
  rcases write_cases sink o text with ⟨-, heq⟩ | ⟨-, -, heq⟩ | ⟨_, -, -, heq⟩ <;> rw [heq] at h ⊢
  · cases h
  · cases h
  · exact ⟨(refused_push o _).2 (.inr rfl), by simp [Event.received]⟩

/-- A write that is accepted is the same for every sink that accepts it. -/
theorem write_accepted (h : (o.write sink text).2 = none)
    (hnever : ∀ o text, sink'.refusesWrite o text = none) :
    o.write sink' text = o.write sink text := by
  rcases write_cases sink o text with ⟨hempty, heq⟩ | ⟨hne, -, heq⟩ | ⟨_, -, -, heq⟩ <;>
    rw [heq] at h ⊢
  · simp [Output.write, hempty]
  · simp [Output.write, hne, hnever]
  · cases h

theorem refused_write (h : (o.write sink text).2 = none) :
    (o.write sink text).1.Refused ↔ o.Refused := by
  rcases write_cases sink o text with ⟨-, heq⟩ | ⟨-, -, heq⟩ | ⟨_, -, -, heq⟩ <;> rw [heq] at h ⊢
  · rw [refused_push]
    simp [Event.isRefusal]
  · cases h

theorem text_write_grows (sink : Sink) (o : Output) (text : String) :
    o.text.toList <+: (o.write sink text).1.text.toList := by
  rcases write_cases sink o text with ⟨-, heq⟩ | ⟨-, -, heq⟩ | ⟨_, -, -, heq⟩
  · simp only [heq]
    exact List.prefix_refl _
  · simp only [heq, text_push, String.toList_append]
    exact List.prefix_append _ _
  · simp only [heq, text_push, String.toList_append]
    exact List.prefix_append _ _

theorem writeLine_eq (sink : Sink) (o : Output) (text : String) :
    o.writeLine sink text =
      if (o.write sink text).2 = none then (o.write sink text).1.write sink "\n"
      else o.write sink text := by
  rw [Output.writeLine]
  generalize o.write sink text = written
  obtain ⟨o', refusal⟩ := written
  cases refusal with
  | none => rfl
  | some message => rfl

theorem By.writeLine (h : By sink o) (text : String) : By sink (o.writeLine sink text).1 := by
  rw [writeLine_eq]
  split
  · exact (h.write text).write "\n"
  · exact h.write text

theorem text_writeLine_grows (sink : Sink) (o : Output) (text : String) :
    o.text.toList <+: (o.writeLine sink text).1.text.toList := by
  rw [writeLine_eq]
  split
  · exact (text_write_grows sink o text).trans (text_write_grows sink _ "\n")
  · exact text_write_grows sink o text

/-- A line is written as a sink that accepts everything would write it, or it is cut off. -/
theorem writeLine_cases (hnever : ∀ o text, sink'.refusesWrite o text = none) (ho : ¬o.Refused)
    (text : String) :
    (o.writeLine sink text = o.writeLine sink' text ∧ ¬(o.writeLine sink text).1.Refused) ∨
    ((o.writeLine sink text).1.Refused ∧
      (o.writeLine sink text).1.text.toList <+: (o.writeLine sink' text).1.text.toList) := by
  rw [writeLine_eq sink]
  split
  next haccepted =>
    have hsame := write_accepted haccepted hnever
    have hgoes : o.writeLine sink' text = (o.write sink text).1.write sink' "\n" := by
      rw [writeLine_eq, hsame, if_pos haccepted]
    rw [hgoes]
    generalize hwritten : (o.write sink text).1 = o₁
    have ho₁ : ¬o₁.Refused := by rwa [← hwritten, refused_write haccepted]
    cases hline : (o₁.write sink "\n").2 with
    | none => exact .inl ⟨(write_accepted hline hnever).symm, by rwa [refused_write hline]⟩
    | some message =>
      obtain ⟨hrefused, htext⟩ := text_write_refused hline
      rw [htext]
      exact .inr ⟨hrefused, text_write_grows sink' o₁ "\n"⟩
  next hrefusal =>
    obtain ⟨message, hmessage⟩ := Option.ne_none_iff_exists'.1 hrefusal
    obtain ⟨hrefused, htext⟩ := text_write_refused hmessage
    rw [htext]
    exact .inr ⟨hrefused, text_writeLine_grows sink' o text⟩

/-- After a refusal a sink that does not recover receives nothing. -/
theorem text_write_sticky (hsticky : sink.Sticky) (hby : By sink o) (ho : o.Refused)
    (text : String) : (o.write sink text).1.Refused ∧ (o.write sink text).1.text = o.text := by
  rcases write_cases sink o text with ⟨-, heq⟩ | ⟨hne, haccepts, -⟩ | ⟨_, -, -, heq⟩
  · rw [heq]
    exact ⟨ho, rfl⟩
  · have hrefuses := hsticky o text hby ho hne
    rw [haccepts] at hrefuses
    cases hrefuses
  · exact text_write_refused (by rw [heq])

theorem text_writeLine_sticky (hsticky : sink.Sticky) (hby : By sink o) (ho : o.Refused)
    (text : String) :
    (o.writeLine sink text).1.Refused ∧ (o.writeLine sink text).1.text = o.text := by
  have hfirst := text_write_sticky hsticky hby ho text
  rw [writeLine_eq]
  split
  · rw [← hfirst.2]
    exact text_write_sticky hsticky (hby.write text) hfirst.1 "\n"
  · exact hfirst

end Output

namespace Sink

/-- A sink with a limit on the number of lines does not recover. -/
theorem sticky_limitLines (sink : Sink) (n : Nat) : (sink.limitLines n).Sticky := by
  -- the first refusal comes when the limit has been reached, and lines are never taken back
  have hfull {o : Output} (h : Output.By (sink.limitLines n) o) (ho : o.Refused) :
      n ≤ o.newlines := by
    induction h with
    | empty => exact absurd ho Output.not_refused_empty
    | @write o h text ih =>
      rcases Output.write_cases (sink.limitLines n) o text with
        ⟨-, heq⟩ | ⟨-, -, heq⟩ | ⟨_, -, hrefuses, heq⟩ <;> rw [heq] at ho ⊢
      · exact ih ho
      · rw [Output.newlines_push]
        have hle : n ≤ o.newlines := ih (by simpa [Output.refused_push, Event.isRefusal] using ho)
        omega
      · rw [Output.newlines_push]
        by_cases hle : n ≤ o.newlines
        · exact Nat.le_add_right_of_le hle
        · simp [limitLines, hle] at hrefuses
  intro o text h ho _
  simp [limitLines, hfull h ho]

end Sink

end ClassScript
