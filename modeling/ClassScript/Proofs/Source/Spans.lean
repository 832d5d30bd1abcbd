import ClassScript.Proofs.Source.LongestMatch

/-! # Spans

Where the items of a source text stand in it.  A position is an offset in bytes at which a character
starts or the text ends, and a span lies between two of them, so that every span has a text.  The
spans of the items follow one another in the order of the items, and between them stand blanks and
comments only.
-/
namespace ClassScript.Source

/-- A part of a source text. -/
structure Span (source : String) where
  start : source.Pos
  stop : source.Pos
  ordered : start ≤ stop

namespace Span

variable {source : String}

def text (span : Span source) : String :=
  (source.slice span.start span.stop span.ordered).copy

/-- One more than the number of line ends before the end of the span. -/
def line (span : Span source) : Nat := 1 + (source.sliceTo span.stop).copy.toList.count '\n'

/-- The item is the one of this span: a token has the text of the span as its lexeme, and the text
of a string lies one byte inside of the span at both ends; an unterminated string reaches from its
quote to the end of the source text, and an unexpected character is all that the span has. -/
def Carries (span : Span source) : Item → Prop
  | .token t => t.lexeme = span.text ∧ t.line = span.line ∧
      ∀ text, t.literal = some (.string text) → ∃ inner : Span source, inner.text = text ∧
        inner.start.offset.byteIdx = span.start.offset.byteIdx + 1 ∧
          inner.stop.offset.byteIdx + 1 = span.stop.offset.byteIdx
  | .error line .unterminated => line = span.line ∧ span.stop = source.endPos ∧
      ∃ body, span.text = String.ofList ('"' :: body) ∧ '"' ∉ body
  | .error line (.unexpected c) => line = span.line ∧ span.text = c.toString

end Span

/-- Blanks and comments in front of `rest`.  A comment ends where the line ends. -/
inductive Filler (rest : List Char) : List Char → Prop where
  | nil : Filler rest []
  | blank {c : Char} {text : List Char} (hc : isBlank c = true) (h : Filler rest text) :
      Filler rest (c :: text)
  | comment {body text : List Char} (hbody : '\n' ∉ body)
      (hend : ∀ c ∈ (text ++ rest).head?, c = '\n') (h : Filler rest text) :
      Filler rest ('/' :: '/' :: (body ++ text))

section Order

variable {source : String} {p q : source.Pos} {spans : List (Span source)}
  {front text rest cs : List Char} {line : Nat} {items : List Item}

/-- The spans follow one another from the position on to the end of the text, and nothing but blanks
and comments stands in front of any of them. -/
def Follow : source.Pos → List (Span source) → Prop
  | p, [] => p = source.endPos
  | p, span :: spans =>
    (∃ h : p ≤ span.start, Filler (source.sliceFrom span.start).copy.toList
      (Span.mk p span.start h).text.toList) ∧ Follow span.stop spans

/-- The position between two parts of the source text. -/
def Parts (p : source.Pos) (front rest : List Char) : Prop :=
  p.Splits (String.ofList front) (String.ofList rest)

namespace Parts

theorem first (source : String) : Parts source.startPos [] source.toList := by
  simp [Parts]

/-- The position behind a text that stands at a position. -/
theorem exists_next (h : Parts p front (text ++ rest)) :
    ∃ q : source.Pos, Parts q (front ++ text) rest := by
  have happend : source = String.ofList (front ++ text) ++ String.ofList rest := by
    rw [h.eq_append, ← String.ofList_append, ← String.ofList_append, List.append_assoc]
  exact ⟨.ofEqAppend happend, String.Pos.splits_ofEqAppend happend⟩

theorem span_text (h : Parts p front (text ++ rest)) (h' : Parts q (front ++ text) rest) :
    ∃ hle : p ≤ q, (Span.mk p q hle).text = String.ofList text := by
  apply String.copy_slice_eq_iff_splits.2
  refine ⟨String.ofList front, String.ofList rest, ?_, ?_⟩
  · rw [← String.ofList_append]
    exact h
  · rw [← String.ofList_append]
    exact h'

theorem line_eq (h : Parts q front rest) (hle : p ≤ q) :
    (Span.mk p q hle).line = 1 + front.count '\n' := by
  rw [Span.line, h.copy_sliceTo_eq, String.toList_ofList]

theorem byteIdx (h : Parts p front rest) :
    p.offset.byteIdx = (String.ofList front).utf8ByteSize := by
  rw [h.offset_eq_rawEndPos]
  rfl

theorem last (h : Parts p front []) : p = source.endPos :=
  (String.Pos.splits_empty_right_iff.1 h).1

/-- What stands between two positions. -/
theorem exists_gap (h : Parts p front rest) (hle : p ≤ q) :
    ∃ gap after, rest = gap ++ after ∧ Parts q (front ++ gap) after := by
  obtain ⟨gap, hfront, hrest⟩ := (h.le_iff_exists_eq_append q.splits).1 hle
  refine ⟨gap.toList, (source.sliceFrom q).copy.toList, ?_, ?_⟩
  · simpa using congrArg String.toList hrest
  · have hq := q.splits
    rw [hfront] at hq
    simpa [Parts] using hq

/-- The text of a string lies between its quotes. -/
theorem exists_inner {body : List Char} (h : Parts p front ('"' :: (body ++ ['"']) ++ rest))
    (h' : Parts q (front ++ '"' :: (body ++ ['"'])) rest) :
    ∃ inner : Span source, inner.text = String.ofList body ∧
      inner.start.offset.byteIdx = p.offset.byteIdx + 1 ∧
        inner.stop.offset.byteIdx + 1 = q.offset.byteIdx := by
  have hopen : Parts p front (['"'] ++ (body ++ (['"'] ++ rest))) := by simpa using h
  obtain ⟨p', hp'⟩ := hopen.exists_next
  obtain ⟨q', hq'⟩ := hp'.exists_next
  obtain ⟨hle, htext⟩ := hp'.span_text hq'
  have hquote : (String.ofList ['"']).utf8ByteSize = 1 := by decide
  refine ⟨⟨p', q', hle⟩, htext, ?_, ?_⟩
  · rw [hp'.byteIdx, h.byteIdx, String.ofList_append, String.utf8ByteSize_append, hquote]
  · have hclose : String.ofList (front ++ '"' :: (body ++ ['"'])) =
        String.ofList (front ++ ['"'] ++ body) ++ String.ofList ['"'] := by
      rw [← String.ofList_append]
      simp
    rw [hq'.byteIdx, h'.byteIdx, hclose, String.utf8ByteSize_append, hquote]

end Parts

/-- The text that is taken for an item is the text of its span. -/
theorem Takes.carries {item : Item} (h : Takes line text rest (some item))
    (hp : Parts p front (text ++ rest)) (hq : Parts q (front ++ text) rest)
    (hline : line = 1 + (front ++ text).count '\n') :
    ∃ hle : p ≤ q, (Span.mk p q hle).Carries item := by
  obtain ⟨hle, htext⟩ := hp.span_text hq
  have hsame := hline.trans (hq.line_eq hle).symm
  refine ⟨hle, ?_⟩
  cases h with
  | token hfront h =>
    refine ⟨htext.symm, hsame, fun s hs => ?_⟩
    cases h with
    | string hbody =>
      obtain rfl : String.ofList _ = s := by simpa using hs
      exact hp.exists_inner hq
    | _ => cases hs
  | unterminated h => exact ⟨hsame, hq.last, _, htext, h⟩
  | unexpected => exact ⟨hsame, htext.trans (by simp [Char.toString])⟩

theorem Span.text_self (h : p ≤ p) : (Span.mk p p h).text = "" := by
  simp [Span.text]

/-- A span right at the position. -/
theorem Follow.cons (hle : p ≤ q) (h : Follow q spans) : Follow p (⟨p, q, hle⟩ :: spans) := by
  refine ⟨⟨String.Pos.le_refl p, ?_⟩, h⟩
  rw [Span.text_self]
  exact .nil

/-- What is skipped stands in front of the first span. -/
theorem Follow.skip (hp : Parts p front (text ++ rest)) (hq : Parts q (front ++ text) rest)
    (htext : ∀ gap after, rest = gap ++ after → Filler after gap → Filler after (text ++ gap))
    (hspans : spans ≠ []) (h : Follow q spans) : Follow p spans := by
  obtain ⟨span, spans, rfl⟩ := List.exists_cons_of_ne_nil hspans
  obtain ⟨⟨hle, hfiller⟩, hrest⟩ := h
  obtain ⟨gap, after, rfl, hafter⟩ := hq.exists_gap hle
  obtain ⟨_, hgap⟩ := hq.span_text hafter
  rw [List.append_assoc] at hafter
  rw [← List.append_assoc] at hp
  obtain ⟨hle', hboth⟩ := hp.span_text hafter
  rw [hgap, hafter.copy_sliceFrom_eq, String.toList_ofList, String.toList_ofList] at hfiller
  refine ⟨⟨hle', ?_⟩, hrest⟩
  rw [hboth, hafter.copy_sliceFrom_eq, String.toList_ofList, String.toList_ofList]
  exact htext gap after rfl hfiller

/-- What is skipped is filler. -/
theorem Takes.filler (h : Takes line text rest none) (gap after : List Char)
    (hrest : rest = gap ++ after) (hgap : Filler after gap) : Filler after (text ++ gap) := by
  cases h with
  | blank hc => exact .blank hc hgap
  | comment hbody hend => exact .comment hbody (hrest ▸ hend) hgap

theorem Follow.pairwise (h : Follow p spans) :
    (∀ span ∈ spans, p ≤ span.start) ∧
      spans.Pairwise fun before after => before.stop ≤ after.start := by
  induction spans generalizing p with
  | nil => exact ⟨by simp, .nil⟩
  | cons span spans ih =>
    obtain ⟨⟨hle, -⟩, hrest⟩ := h
    obtain ⟨hall, hpairwise⟩ := ih hrest
    refine ⟨List.forall_mem_cons.2 ⟨hle, fun later hlater => ?_⟩, .cons hall hpairwise⟩
    exact String.Pos.le_trans hle (String.Pos.le_trans span.ordered (hall later hlater))

theorem Lexes.getLast (h : Lexes line cs items) :
    items.getLast? = some (.token (.endOfInput (line + cs.count '\n'))) := by
  induction h with
  | finish => rfl
  | step h hrest ih =>
    rw [List.getLast?_append, ih, List.count_append, Nat.add_assoc]
    rfl

theorem Lexes.length_le (h : Lexes line cs items) : items.length ≤ cs.length + 1 := by
  induction h with
  | finish => simp
  | @step line text rest item? items h hrest ih =>
    have htext := List.length_pos_iff.2 h.ne_nil
    have hitem : item?.toList.length ≤ 1 := by cases item? <;> simp
    simp only [List.length_append]
    omega

end Order

end ClassScript.Source
