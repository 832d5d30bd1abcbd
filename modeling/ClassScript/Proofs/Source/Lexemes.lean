import ClassScript.Number.Text
import ClassScript.Proofs.Source.Spelling

/-! # Lexemes

The tokens of a source text as they are written.  Symbols and reserved words have one spelling each,
names are words that are not reserved, the strings have no quotes in them, and the numbers have no
sign, so that a finite one is shown by digits.
-/
namespace ClassScript

namespace Number

/-- Digits and points, a digit first. -/
def IsNumeral (text : String) : Prop :=
  ∃ c cs, text.toList = c :: cs ∧ c.isDigit = true ∧ ∀ d ∈ cs, d.isDigit = true ∨ d = '.'

theorem isNumeral_digits {ds cs : List Char} (hne : ds ≠ []) (hds : ∀ d ∈ ds, d.isDigit = true)
    (hcs : ∀ d ∈ cs, d.isDigit = true ∨ d = '.') : IsNumeral (String.ofList (ds ++ cs)) := by
  obtain ⟨d, ds, rfl⟩ := List.exists_cons_of_ne_nil hne
  obtain ⟨hd, hds⟩ := List.forall_mem_cons.1 hds
  refine ⟨d, ds ++ cs, by simp, hd, fun c hc => ?_⟩
  rcases List.mem_append.1 hc with hc | hc
  · exact .inl (hds c hc)
  · exact hcs c hc

theorem isDigit_toDigits (n : Nat) : ∀ c ∈ Nat.toDigits 10 n, c.isDigit = true :=
  fun _ => Nat.isDigit_of_mem_toDigits (by decide) (by decide)

theorem isDigit_zeros (n : Nat) : ∀ c ∈ Decimal.zeros n, c.isDigit = true := by
  intro c hc
  rw [List.eq_of_mem_replicate hc]
  rfl

theorem split_digits (d : Decimal) :
    (d.split.1 ≠ [] ∧ ∀ c ∈ d.split.1, c.isDigit = true) ∧
      ∀ c ∈ d.split.2, c.isDigit = true := by
  have hdigits := isDigit_toDigits d.digits
  unfold Decimal.split
  dsimp only
  split
  · refine ⟨⟨by simp [Nat.toDigits_ne_nil], fun c hc => ?_⟩, by simp⟩
    rcases List.mem_append.1 hc with hc | hc
    · exact hdigits c hc
    · exact isDigit_zeros _ c hc
  split
  next hplaces =>
    refine ⟨⟨fun hnil => ?_, fun c hc => hdigits c (List.mem_of_mem_take hc)⟩,
      fun c hc => hdigits c (List.mem_of_mem_drop hc)⟩
    have hlength := congrArg List.length hnil
    simp only [List.length_take, List.length_nil] at hlength
    omega
  · refine ⟨⟨by simp, by simp⟩, fun c hc => ?_⟩
    rcases List.mem_append.1 hc with hc | hc
    · exact isDigit_zeros _ c hc
    · exact hdigits c hc

theorem isNaN_of_isFinite {x : Number} (h : x.isFinite = true) : x.isNaN = false := by
  simp only [isFinite, decide_eq_true_eq] at h
  simp [isNaN, h]

/-- A finite number without a sign is shown by digits and a point. -/
theorem isNumeral_text {x : Number} (hfinite : x.isFinite = true) (hsign : x.signBit = false) :
    IsNumeral x.text := by
  have hsigned (cs : List Char) : x.signed cs = String.ofList cs := by simp [signed, hsign]
  unfold text
  split
  · rw [hsigned, ← List.append_nil (Nat.toDigits 10 _)]
    exact isNumeral_digits Nat.toDigits_ne_nil (isDigit_toDigits _) (by simp)
  have hnan := isNaN_of_isFinite hfinite
  obtain ⟨⟨hne, hwhole⟩, hfraction⟩ := split_digits (x.shortest .away)
  simp only [shortestText, hnan, hfinite, hsigned, Decimal.positional, Bool.false_eq_true, if_false,
    if_true]
  split
  · rw [← List.append_nil (Decimal.split _).1]
    exact isNumeral_digits hne hwhole (by simp)
  · refine isNumeral_digits hne hwhole (List.forall_mem_cons.2 ⟨.inr rfl, fun d hd => ?_⟩)
    exact .inl (hfraction d hd)

theorem signBit_ofNat {n : Nat} (h : n ≤ infinityWord) :
    (mk (UInt64.ofNat n)).signBit = false := by
  have hlt : infinityWord < Nat.pow 2 63 := by decide
  have hmod : (UInt64.ofNat n).toNat ≤ n := by
    rw [UInt64.toNat_ofNat']
    exact Nat.mod_le _ _
  simp only [signBit, decide_eq_false_iff_not, Nat.not_le]
  omega

theorem signBit_toNumber (d : Decimal) : d.toNumber.signBit = false := by
  unfold Decimal.toNumber ofRatio
  split
  · rfl
  · refine signBit_ofNat ?_
    unfold wordOfRatio
    exact Nat.min_le_right _ _

end Number

namespace Token

/-- The symbols. -/
def symbols : List (String × Kind) :=
  [("(", .leftParen), (")", .rightParen), ("\x7b", .leftBrace), ("\x7d", .rightBrace),
    (",", .comma), (".", .dot), ("-", .minus), ("+", .plus), (";", .semicolon), ("/", .slash),
    ("*", .star), ("!", .bang), ("!=", .bangEqual), ("=", .equal), ("==", .equalEqual),
    (">", .greater), (">=", .greaterEqual), ("<", .less), ("<=", .lessEqual)]

/-- Letters and digits, no digit first, and no reserved word. -/
structure IsName (text : String) : Prop where
  chars : ∃ c cs, text.toList = c :: cs ∧ Source.isWordStart c = true ∧
    ∀ d ∈ cs, Source.isWordChar d = true
  free : Kind.ofWord text = .identifier

/-- The tokens that source texts have, numbers whose text has no digits apart. -/
inductive Written : Token → Prop where
  | fixed {lexeme : String} {kind : Kind} (line : Nat)
      (h : (lexeme, kind) ∈ symbols ++ reservedWords) : Written { kind, lexeme, line }
  | name {lexeme : String} (line : Nat) (h : IsName lexeme) :
      Written { kind := .identifier, lexeme, line }
  | number {lexeme : String} {x : Number} (line : Nat) (h : Number.IsNumeral x.text) :
      Written { kind := .number, lexeme, literal := some (.number x), line }
  | string {lexeme text : String} (line : Nat) (h : '"' ∉ text.toList) :
      Written { kind := .string, lexeme, literal := some (.string text), line }
  | endOfInput (line : Nat) : Written (.endOfInput line)

end Token

namespace Source

/-- What the text of a piece looks like. -/
def Piece.Apt (p : Piece) : Prop :=
  match p.shape with
  | .symbol kind => (String.ofList p.text, kind) ∈ Token.symbols
  | .word => ∃ c cs, p.text = c :: cs ∧ isWordStart c = true ∧ ∀ d ∈ cs, isWordChar d = true
  | .string => ∃ body close, p.text = '"' :: (body ++ [close]) ∧ '"' ∉ body
  | _ => True

theorem mem_symbols_of_symbolOf? {c : Char} {pair : Token.Kind × Option Token.Kind}
    (h : symbolOf? c = some pair) :
    (String.ofList [c], pair.1) ∈ Token.symbols ∧
      ∀ kind ∈ pair.2, (String.ofList [c, '='], kind) ∈ Token.symbols := by
  unfold symbolOf? at h
  split at h <;> cases h <;> decide

theorem apt_cutSymbol (c : Char) (cs : List Char) : (cutSymbol c cs).1.Apt := by
  unfold cutSymbol
  split
  next heq => exact (mem_symbols_of_symbolOf? heq).2 _ rfl
  next heq _ => exact (mem_symbols_of_symbolOf? heq).1
  next => trivial

theorem apt_cutString (cs : List Char) : (cutString '"' cs).1.Apt := by
  unfold cutString
  split
  · trivial
  · refine ⟨_, _, rfl, fun hmem => ?_⟩
    have hquote := List.all_eq_true.1 List.all_takeWhile _ hmem
    simp at hquote

theorem apt_cut (c : Char) (cs : List Char) : (cut c cs).1.Apt := by
  unfold cut
  split
  · trivial
  split
  · simp [Piece.Apt, shape_cutNumber]
  split
  next hstart => exact ⟨c, _, rfl, hstart, List.all_eq_true.1 List.all_takeWhile⟩
  split
  next hquote =>
    subst hquote
    exact apt_cutString cs
  split
  · trivial
  · exact apt_cutSymbol c cs

theorem written_word {text : List Char} (line : Nat)
    (h : ∃ c cs, text = c :: cs ∧ isWordStart c = true ∧ ∀ d ∈ cs, isWordChar d = true) :
    let lexeme := String.ofList text
    Token.Written { kind := Token.Kind.ofWord lexeme, lexeme, line } := by
  intro lexeme
  rcases Token.ofWord_cases lexeme with hreserved | hname
  · exact .fixed line (List.mem_append_right _ hreserved)
  · rw [hname]
    exact .name line ⟨by simpa [lexeme] using h, hname⟩

theorem written_item {p : Piece} (hp : p.Apt) {line : Nat} {t : Token}
    (hfinite : ∀ x, t.literal = some (.number x) → x.isFinite = true)
    (h : p.item? line = some (.token t)) : t.Written := by
  unfold Piece.item? at h
  unfold Piece.Apt at hp
  split at h <;> cases h
  next kind hshape =>
    rw [hshape] at hp
    exact .fixed line (List.mem_append_left _ hp)
  next hshape =>
    rw [hshape] at hp
    exact written_word line hp
  next =>
    exact .number line (Number.isNumeral_text (hfinite _ rfl) (Number.signBit_toNumber _))
  next hshape =>
    rw [hshape] at hp
    obtain ⟨body, close, htext, hbody⟩ := hp
    refine .string line ?_
    simpa [quotedText, htext] using hbody

/-- Every number that is written in the text is finite. -/
def NumbersFinite (source : String) : Prop :=
  ∀ t ∈ tokens source, ∀ x, t.literal = some (.number x) → x.isFinite = true

instance (source : String) : Decidable (NumbersFinite source) :=
  decidable_of_iff
    (∀ t ∈ tokens source, (match t.literal with
      | some (.number x) => x.isFinite
      | _ => true) = true) <| by
    refine forall₂_congr fun t _ => ?_
    split <;> simp_all

theorem written_tokens {source : String} (hfinite : NumbersFinite source) :
    ∀ t ∈ tokens source, t.Written := by
  have hwritten : ∀ t ∈ tokens source,
      (∀ x, t.literal = some (.number x) → x.isFinite = true) → t.Written :=
    forall_tokens apt_cut (fun _ _ _ hp hi hx => written_item hp hx hi)
      (fun line _ => .endOfInput line) source
  exact fun t ht => hwritten t ht (hfinite t ht)

end Source

end ClassScript
