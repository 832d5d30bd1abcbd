import ClassScript.Proofs.Source.Lexemes
import Mathlib.Data.List.TakeWhile

/-! # The lexical grammar

What the texts of tokens are, and how a text falls into tokens, said without a scanner: skip what
stands between tokens, then take the longest token that the rest starts with.  A quote that is never
closed takes all of the rest, and any other character that starts no token is left out alone.
-/
namespace ClassScript.Source

def IsWord (text : List Char) : Prop :=
  ∃ c cs, text = c :: cs ∧ isWordStart c = true ∧ ∀ d ∈ cs, isWordChar d = true

/-- Digits with an optional fraction, and the number that they write. -/
inductive Numeral : List Char → Number → Prop where
  | whole {digits : List Char} (hne : digits ≠ []) (hdigits : ∀ d ∈ digits, isDigit d = true) :
      Numeral digits (Decimal.ofDigits digits []).toNumber
  | fraction {digits places : List Char} (hne : digits ≠ [])
      (hdigits : ∀ d ∈ digits, isDigit d = true) (hsome : places ≠ [])
      (hplaces : ∀ d ∈ places, isDigit d = true) :
      Numeral (digits ++ '.' :: places) (Decimal.ofDigits digits places).toNumber

/-- The texts of tokens, with the kind and the value of the token. -/
inductive Lexeme : List Char → Token.Kind → Option Token.Literal → Prop where
  | symbol {text : List Char} {kind : Token.Kind}
      (h : (String.ofList text, kind) ∈ Token.symbols) : Lexeme text kind none
  | number {text : List Char} {x : Number} (h : Numeral text x) :
      Lexeme text .number (some (.number x))
  | reserved {text : List Char} {kind : Token.Kind} (hword : IsWord text)
      (h : (String.ofList text, kind) ∈ Token.reservedWords) : Lexeme text kind none
  | name {text : List Char} (hword : IsWord text)
      (h : ∀ kind, (String.ofList text, kind) ∉ Token.reservedWords) : Lexeme text .identifier none
  | string {body : List Char} (h : '"' ∉ body) :
      Lexeme ('"' :: (body ++ ['"'])) .string (some (.string (String.ofList body)))

/-- The text starts with a blank or a comment. -/
def Skips (text : List Char) : Prop :=
  (∃ c rest, text = c :: rest ∧ isBlank c = true) ∨ ['/', '/'] <+: text

/-- What is taken off the front of a text, what is left, and the item that is yielded if the text
taken ends on the given line. -/
inductive Takes (line : Nat) : List Char → List Char → Option Item → Prop where
  | blank {c : Char} {rest : List Char} (h : isBlank c = true) : Takes line [c] rest none
  /-- A comment goes up to the end of the line, which is not a part of it. -/
  | comment {text rest : List Char} (h : '\n' ∉ text) (hrest : ∀ c ∈ rest.head?, c = '\n') :
      Takes line ('/' :: '/' :: text) rest none
  | token {text rest : List Char} {kind : Token.Kind} {literal : Option Token.Literal}
      (hfront : ¬ Skips (text ++ rest)) (h : Lexeme text kind literal)
      (hlongest : ∀ text' kind' literal', Lexeme text' kind' literal' → text' <+: text ++ rest →
        text'.length ≤ text.length) :
      Takes line text rest (some (.token ⟨kind, String.ofList text, literal, line⟩))
  | unterminated {body : List Char} (h : '"' ∉ body) :
      Takes line ('"' :: body) [] (some (.error line .unterminated))
  | unexpected {c : Char} {rest : List Char} (hfront : ¬ Skips (c :: rest)) (hquote : c ≠ '"')
      (hnone : ∀ text kind literal, Lexeme text kind literal → ¬ text <+: c :: rest) :
      Takes line [c] rest (some (.error line (.unexpected c)))

/-- The items of a text that starts on the given line. -/
inductive Lexes : Nat → List Char → List Item → Prop where
  | finish {line : Nat} : Lexes line [] [.token (.endOfInput line)]
  | step {line : Nat} {text rest : List Char} {item? : Option Item} {items : List Item}
      (h : Takes (line + text.count '\n') text rest item?)
      (hrest : Lexes (line + text.count '\n') rest items) :
      Lexes line (text ++ rest) (item?.toList ++ items)

section Classes

variable {c : Char} {cs text : List Char} {kind : Token.Kind} {literal : Option Token.Literal}

theorem isDigit_of_isWordStart (h : isWordStart c = true) : isDigit c = false := by
  simp only [isWordStart, Bool.or_eq_true, decide_eq_true_eq, beq_iff_eq] at h
  simp only [isDigit, decide_eq_false_iff_not, not_and]
  intro hlow hhigh
  rcases h with (⟨hlow', -⟩ | ⟨hlow', -⟩) | rfl
  · exact absurd (Char.le_trans hlow' hhigh) (by decide)
  · exact absurd (Char.le_trans hlow' hhigh) (by decide)
  · exact absurd hhigh (by decide)

/-- A symbol is a character that forms one alone, or that with an equals sign. -/
theorem mem_symbols (h : (String.ofList text, kind) ∈ Token.symbols) :
    ∃ c pair, symbolOf? c = some pair ∧
      (text = [c] ∧ kind = pair.1 ∨ text = [c, '='] ∧ some kind = pair.2) := by
  have htable : (Token.symbols.all fun entry =>
      (entry.1.toList.head?.bind symbolOf?).any fun pair =>
        entry.1.toList.tail == [] && entry.2 == pair.1 ||
          entry.1.toList.tail == ['='] && some entry.2 == pair.2) = true := by decide
  have hentry := List.all_eq_true.1 htable _ h
  rw [String.toList_ofList] at hentry
  obtain ⟨pair, hhead, hkind⟩ := (Option.any_eq_true _ _).1 hentry
  obtain ⟨c, hc, hpair⟩ := Option.bind_eq_some_iff.1 hhead
  obtain ⟨rest, rfl⟩ := List.head?_eq_some_iff.1 hc
  refine ⟨c, pair, hpair, ?_⟩
  simpa using hkind

theorem symbolOf?_start {pair : Token.Kind × Option Token.Kind} (h : symbolOf? c = some pair) :
    isBlank c = false ∧ isDigit c = false ∧ isWordStart c = false ∧ c ≠ '"' := by
  unfold symbolOf? at h
  split at h <;> cases h <;> decide

/-- No symbol starts like a token of another class. -/
theorem symbol_start (h : (String.ofList (c :: cs), kind) ∈ Token.symbols) :
    isDigit c = false ∧ isWordStart c = false ∧ c ≠ '"' := by
  obtain ⟨c', pair, hpair, ⟨htext, -⟩ | ⟨htext, -⟩⟩ := mem_symbols h
  · obtain ⟨rfl, -⟩ := List.cons.inj htext
    exact (symbolOf?_start hpair).2
  · obtain ⟨rfl, -⟩ := List.cons.inj htext
    exact (symbolOf?_start hpair).2

theorem isWord_cons :
    IsWord (c :: cs) ↔ isWordStart c = true ∧ ∀ d ∈ cs, isWordChar d = true := by
  constructor
  · rintro ⟨c', cs', htext, h⟩
    obtain ⟨rfl, rfl⟩ := List.cons.inj htext
    exact h
  · exact fun h => ⟨c, cs, rfl, h⟩

theorem Numeral.start {x : Number} (h : Numeral (c :: cs) x) : isDigit c = true := by
  generalize htext : c :: cs = text at h
  cases h with
  | whole hne hdigits => exact hdigits c (by simp [← htext])
  | @fraction digits places hne hdigits =>
    obtain ⟨d, ds, rfl⟩ := List.exists_cons_of_ne_nil hne
    obtain ⟨rfl, -⟩ := List.cons.inj htext
    exact hdigits c List.mem_cons_self

/-- The number is the one that the text is read as. -/
theorem Numeral.value {x : Number} (h : Numeral text x) : x = (decimalOf text).toNumber := by
  cases h with
  | whole hne hdigits =>
    have htake : text.takeWhile isDigit = text := List.takeWhile_eq_self_iff.2 hdigits
    have hdrop : text.dropWhile isDigit = [] := List.dropWhile_eq_nil_iff.2 hdigits
    rw [decimalOf, htake, hdrop, List.drop_nil]
  | @fraction digits places hne hdigits =>
    rw [decimalOf, List.takeWhile_append_of_pos hdigits, List.dropWhile_append_of_pos hdigits]
    simp [isDigit]

theorem ofWord_of_mem {word : String} (h : (word, kind) ∈ Token.reservedWords) :
    Token.Kind.ofWord word = kind := by
  have htable : ∀ entry ∈ Token.reservedWords, Token.Kind.ofWord entry.1 = entry.2 := by decide
  exact htable _ h

theorem ofWord_of_not_mem {word : String} (h : ∀ kind, (word, kind) ∉ Token.reservedWords) :
    Token.Kind.ofWord word = .identifier := by
  rcases Token.ofWord_cases word with hmem | hname
  · exact absurd hmem (h _)
  · exact hname

end Classes

/-! The first character tells which tokens a text can be. -/

namespace Lexeme

variable {c : Char} {cs : List Char} {kind : Token.Kind} {literal : Option Token.Literal}

theorem of_digit (h : Lexeme (c :: cs) kind literal) (hc : isDigit c = true) :
    ∃ x, Numeral (c :: cs) x ∧ kind = .number ∧ literal = some (.number x) := by
  have hword (hword : IsWord (c :: cs)) : False := by
    simp [isDigit_of_isWordStart (isWord_cons.1 hword).1] at hc
  cases h with
  | symbol h => simp [(symbol_start h).1] at hc
  | number h => exact ⟨_, h, rfl, rfl⟩
  | reserved h => exact (hword h).elim
  | name h => exact (hword h).elim
  | string h => simp [isDigit] at hc

theorem of_letter (h : Lexeme (c :: cs) kind literal) (hc : isWordStart c = true) :
    IsWord (c :: cs) ∧ kind = Token.Kind.ofWord (String.ofList (c :: cs)) ∧ literal = none := by
  cases h with
  | symbol h => simp [(symbol_start h).2.1] at hc
  | number h =>
    have hdigit := h.start
    simp [isDigit_of_isWordStart hc] at hdigit
  | reserved hword h => exact ⟨hword, (ofWord_of_mem h).symm, rfl⟩
  | name hword h => exact ⟨hword, (ofWord_of_not_mem h).symm, rfl⟩
  | string h => simp [isWordStart] at hc

theorem of_quote (h : Lexeme ('"' :: cs) kind literal) :
    ∃ body, cs = body ++ ['"'] ∧ '"' ∉ body ∧ kind = .string ∧
      literal = some (.string (String.ofList body)) := by
  have hword (hword : IsWord ('"' :: cs)) : False := by
    have hstart := (isWord_cons.1 hword).1
    simp [isWordStart] at hstart
  cases h with
  | symbol h => exact absurd rfl (symbol_start h).2.2
  | number h =>
    have hdigit := h.start
    simp [isDigit] at hdigit
  | reserved h => exact (hword h).elim
  | name h => exact (hword h).elim
  | string h => exact ⟨_, rfl, h, rfl, rfl⟩

theorem of_other (h : Lexeme (c :: cs) kind literal) (hdigit : isDigit c = false)
    (hletter : isWordStart c = false) (hquote : c ≠ '"') :
    (String.ofList (c :: cs), kind) ∈ Token.symbols ∧ literal = none := by
  have hword (hword : IsWord (c :: cs)) : False := by
    simp [(isWord_cons.1 hword).1] at hletter
  cases h with
  | symbol h => exact ⟨h, rfl⟩
  | number h => simp [h.start] at hdigit
  | reserved h => exact (hword h).elim
  | name h => exact (hword h).elim
  | string h => exact absurd rfl hquote

theorem ne_nil (h : Lexeme cs kind literal) : cs ≠ [] := by
  rintro rfl
  generalize htext : ([] : List Char) = text at h
  have hword (hword : IsWord text) : False := by
    obtain ⟨c, cs, rfl, -⟩ := hword
    cases htext
  cases h with
  | symbol h =>
    obtain ⟨c, pair, -, ⟨rfl, -⟩ | ⟨rfl, -⟩⟩ := mem_symbols h <;> cases htext
  | number h =>
    cases h with
    | whole hne => exact hne htext.symm
    | fraction => simp at htext
  | reserved h => exact hword h
  | name h => exact hword h
  | string h => cases htext

/-- Every word is a token, reserved or not. -/
theorem word (h : IsWord cs) : Lexeme cs (Token.Kind.ofWord (String.ofList cs)) none := by
  rcases Token.ofWord_cases (String.ofList cs) with hmem | hname
  · exact .reserved h hmem
  · rw [hname]
    refine .name h fun kind hmem => ?_
    have htable : ∀ entry ∈ Token.reservedWords, entry.2 ≠ .identifier := by decide
    exact htable _ hmem ((ofWord_of_mem hmem).symm.trans hname)

/-- A text is a token of one kind with one value. -/
theorem unique {kind' : Token.Kind} {literal' : Option Token.Literal}
    (h : Lexeme cs kind literal) (h' : Lexeme cs kind' literal') :
    kind = kind' ∧ literal = literal' := by
  obtain ⟨c, cs, rfl⟩ := List.exists_cons_of_ne_nil h.ne_nil
  by_cases hdigit : isDigit c = true
  · obtain ⟨x, hx, rfl, rfl⟩ := h.of_digit hdigit
    obtain ⟨y, hy, rfl, rfl⟩ := h'.of_digit hdigit
    rw [hx.value, hy.value]
    exact ⟨rfl, rfl⟩
  by_cases hletter : isWordStart c = true
  · obtain ⟨-, rfl, rfl⟩ := h.of_letter hletter
    obtain ⟨-, rfl, rfl⟩ := h'.of_letter hletter
    exact ⟨rfl, rfl⟩
  by_cases hquote : c = '"'
  · subst hquote
    obtain ⟨body, rfl, -, rfl, rfl⟩ := h.of_quote
    obtain ⟨body', heq, -, rfl, rfl⟩ := h'.of_quote
    rw [List.append_cancel_right heq]
    exact ⟨rfl, rfl⟩
  · have hother : isDigit c = false := by simpa using hdigit
    have hother' : isWordStart c = false := by simpa using hletter
    obtain ⟨hmem, rfl⟩ := h.of_other hother hother' hquote
    obtain ⟨hmem', rfl⟩ := h'.of_other hother hother' hquote
    have htable : ∀ x ∈ Token.symbols, ∀ y ∈ Token.symbols, x.1 = y.1 → x.2 = y.2 := by decide
    exact ⟨htable _ hmem _ hmem' rfl, rfl⟩

end Lexeme

end ClassScript.Source
