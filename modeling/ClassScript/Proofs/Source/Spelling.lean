import ClassScript.Program.Source
import ClassScript.Proofs.Reading.Program
import ClassScript.Proofs.Scoping.Shape

/-! # Spelling

The tokens of a source text are spelled right: identifiers are no reserved words, and reserved words
are written as the table says.  So programs that are read from source texts have the right shape.
-/
namespace ClassScript

theorem Token.mem_of_lookup {word : String} {kind : Token.Kind} {table : List (String × Token.Kind)}
    (h : table.lookup word = some kind) : (word, kind) ∈ table := by
  induction table with
  | nil => simp at h
  | cons entry table ih =>
    obtain ⟨w, k⟩ := entry
    rw [List.lookup_cons] at h
    split at h
    next heq =>
      obtain rfl : word = w := by simpa using heq
      obtain rfl : k = kind := by simpa using h
      exact List.mem_cons_self
    next => exact List.mem_cons_of_mem _ (ih h)

theorem Token.ofWord_cases (word : String) :
    (word, Kind.ofWord word) ∈ reservedWords ∨ Kind.ofWord word = .identifier := by
  unfold Kind.ofWord
  cases h : reservedWords.lookup word with
  | none => exact .inr rfl
  | some kind => exact .inl (mem_of_lookup h)

theorem Token.mem_reservedWords {t : Token} (h : t.kind = Kind.ofWord t.lexeme)
    (hkind : t.kind ≠ .identifier) : (t.lexeme, t.kind) ∈ reservedWords := by
  rcases ofWord_cases t.lexeme with hmem | hword
  · rwa [h]
  · exact absurd (h.trans hword) hkind

/-- A word that is a token of its kind is spelled right. -/
theorem Token.spelled_of_word {t : Token} (h : t.kind = Kind.ofWord t.lexeme) : t.Spelled where
  identifier := by
    intro hkind
    rw [h] at hkind
    constructor <;> intro hlexeme <;> rw [hlexeme] at hkind <;> revert hkind <;> decide
  this := by
    intro hkind
    simpa [hkind, reservedWords] using mem_reservedWords h (by simp [hkind])
  super := by
    intro hkind
    simpa [hkind, reservedWords] using mem_reservedWords h (by simp [hkind])

/-- Tokens that are no words are spelled right anyhow. -/
theorem Token.spelled_of_ne {t : Token} (hidentifier : t.kind ≠ .identifier)
    (hthis : t.kind ≠ .thisWord) (hsuper : t.kind ≠ .superWord) : t.Spelled :=
  ⟨fun h => absurd h hidentifier, fun h => absurd h hthis, fun h => absurd h hsuper⟩

namespace Source

/-- Pieces that are symbols are never words. -/
def Piece.Symbolic (p : Piece) : Prop :=
  ∀ kind, p.shape = .symbol kind → kind ≠ .identifier ∧ kind ≠ .thisWord ∧ kind ≠ .superWord

theorem symbolic_cutSymbol (c : Char) (cs : List Char) : (cutSymbol c cs).1.Symbolic := by
  have hsymbol (pair) (h : symbolOf? c = some pair) :
      (pair.1 ≠ .identifier ∧ pair.1 ≠ .thisWord ∧ pair.1 ≠ .superWord) ∧
        ∀ kind ∈ pair.2, kind ≠ .identifier ∧ kind ≠ .thisWord ∧ kind ≠ .superWord := by
    unfold symbolOf? at h
    split at h <;> cases h <;> simp
  intro kind hkind
  unfold cutSymbol at hkind
  split at hkind
  next heq =>
    cases hkind
    exact (hsymbol _ heq).2 _ rfl
  next heq _ =>
    cases hkind
    exact (hsymbol _ heq).1
  next => cases hkind

theorem shape_cutNumber (c : Char) (cs : List Char) : (cutNumber c cs).1.shape = .number := by
  unfold cutNumber
  repeat' split
  all_goals rfl

theorem symbolic_cut (c : Char) (cs : List Char) : (cut c cs).1.Symbolic := by
  unfold cut
  split
  · simp [Piece.Symbolic, cutWhile]
  split
  · simp [Piece.Symbolic, shape_cutNumber]
  split
  · simp [Piece.Symbolic, cutWhile]
  split
  · unfold cutString
    split <;> simp [Piece.Symbolic]
  split
  · simp [Piece.Symbolic, cutWhile]
  · exact symbolic_cutSymbol c cs

theorem spelled_item {p : Piece} (hp : p.Symbolic) {line : Nat} {t : Token}
    (h : p.item? line = some (.token t)) : t.Spelled := by
  unfold Piece.item? at h
  split at h <;> cases h
  next kind hshape =>
    obtain ⟨hidentifier, hthis, hsuper⟩ := hp kind hshape
    exact Token.spelled_of_ne hidentifier hthis hsuper
  next => exact Token.spelled_of_word rfl
  next => exact Token.spelled_of_ne (by simp) (by simp) (by simp)
  next => exact Token.spelled_of_ne (by simp) (by simp) (by simp)

/-- What holds of every piece that is cut off holds of all pieces of a text. -/
theorem forall_pieces {P : Piece → Prop} (hcut : ∀ c cs, P (cut c cs).1) (cs : List Char) :
    ∀ p ∈ pieces cs, P p := by
  have hwithin (n : Nat) : ∀ cs, ∀ p ∈ piecesWithin n cs, P p := by
    induction n with
    | zero => simp [piecesWithin]
    | succ n ih =>
      intro cs
      cases cs with
      | nil => simp [piecesWithin]
      | cons c cs => exact List.forall_mem_cons.2 ⟨hcut c cs, ih _⟩
  exact hwithin _ cs

theorem forall_items {P : Piece → Prop} {Q : Token → Prop}
    (hitem : ∀ p line t, P p → p.item? line = some (.token t) → Q t)
    (hend : ∀ line, Q (.endOfInput line)) {ps : List Piece} (hps : ∀ p ∈ ps, P p) (line : Nat) :
    ∀ t, Item.token t ∈ itemsFrom line ps → Q t := by
  induction ps generalizing line with
  | nil =>
    intro t ht
    obtain rfl : t = Token.endOfInput line := by simpa [itemsFrom] using ht
    exact hend line
  | cons p ps ih =>
    obtain ⟨hp, hps⟩ := List.forall_mem_cons.1 hps
    intro t ht
    rw [itemsFrom] at ht
    split at ht
    next => exact ih hps _ t ht
    next i hi =>
      rcases List.mem_cons.1 ht with rfl | ht
      · exact hitem p _ t hp hi
      · exact ih hps _ t ht

/-- What holds of the token of every piece, and of the end, holds of all tokens of a text. -/
theorem forall_tokens {P : Piece → Prop} {Q : Token → Prop} (hcut : ∀ c cs, P (cut c cs).1)
    (hitem : ∀ p line t, P p → p.item? line = some (.token t) → Q t)
    (hend : ∀ line, Q (.endOfInput line)) (source : String) : ∀ t ∈ tokens source, Q t := by
  intro t ht
  obtain ⟨item, hmem, htoken⟩ := List.mem_filterMap.1 ht
  cases item with
  | error line cause => simp [Item.token?] at htoken
  | token t' =>
    obtain rfl : t' = t := by simpa [Item.token?] using htoken
    exact forall_items hitem hend (forall_pieces hcut _) 1 t' hmem

/-- All tokens of a source text are spelled right. -/
theorem spelled_tokens (source : String) : ∀ t ∈ tokens source, t.Spelled := by
  refine forall_tokens symbolic_cut (fun _ _ _ hp => spelled_item hp) (fun line => ?_) source
  exact Token.spelled_of_ne (by simp [Token.endOfInput]) (by simp [Token.endOfInput])
    (by simp [Token.endOfInput])

end Source

/-- What is known of a program that was read from a source text. -/
theorem Program.ofSource_spec (nextId : Nat) (source : String) :
    nextId ≤ (ofSource nextId source).2 ∧
      ∀ program, (ofSource nextId source).1 = .ok program →
        Stmt.ShapedAll program ∧
          Numbered nextId (Stmt.idsAll program) (ofSource nextId source).2 := by
  obtain ⟨hle, hspec⟩ := ofTokens_spec nextId (Source.tokens source)
  unfold ofSource
  cases hread : (ofTokens nextId (Source.tokens source)).outcome with
  | error errors =>
    simp only [hread]
    exact ⟨hle, by simp⟩
  | ok program =>
    rw [hread] at hspec
    simp only [hread]
    refine ⟨hle, fun program' hok => ?_⟩
    split at hok
    next =>
      obtain rfl : program = program' := by simpa using hok
      refine ⟨hspec.1.shaped fun t ht => ?_, hspec.2⟩
      exact Source.spelled_tokens source t ((List.takeWhile_sublist _).subset ht)
    next => simp at hok

end ClassScript
