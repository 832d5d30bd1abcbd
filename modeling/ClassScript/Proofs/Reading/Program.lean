import ClassScript.Proofs.Grammar.Buildable
import ClassScript.Proofs.Reading.TakenStatement

/-! # Reading accepts the grammar

A whole program: the depth is always enough, what is accepted derives from the grammar and is the
tree of its phrase, and whatever derives from the grammar is accepted.
-/
namespace ClassScript

open Grammar

namespace Program

/-- A token list that ends where it should: at its only end token. -/
structure Terminated (tokens : List Token) (body : List Token) (last : Token) : Prop where
  eq : tokens = body ++ [last]
  last : last.kind = .endOfInput
  body : ∀ t ∈ body, t.kind ≠ .endOfInput

theorem body_append {front : List Token} (hfront : ∀ t ∈ front, t.kind ≠ .endOfInput)
    (behind : List Token) : body (front ++ behind) = front ++ body behind := by
  rw [body, List.takeWhile_append_of_pos]
  · rfl
  · intro t ht
    simpa using hfront t ht

theorem lastToken_append {front behind : List Token} (hfront : ∀ t ∈ front, t.kind ≠ .endOfInput)
    (hne : behind ≠ []) : lastToken (front ++ behind) = lastToken behind := by
  have hnone : front.find? (fun t => t.kind == .endOfInput) = none := by
    apply List.find?_eq_none.2
    intro t ht
    simpa using hfront t ht
  have hlast : (front ++ behind).getLast? = behind.getLast? := by
    rw [List.getLast?_append, List.getLast?_eq_some_getLast hne]
    rfl
  rw [lastToken, lastToken, List.find?_append, hnone, hlast, Option.none_or]

theorem body_eq_self {tokens : List Token} (h : ∀ t ∈ tokens, t.kind ≠ .endOfInput) :
    body tokens = tokens := by
  have happend := body_append h []
  rwa [List.append_nil, show body [] = [] from rfl, List.append_nil] at happend

theorem Terminated.body_eq {tokens u : List Token} {t : Token} (h : Terminated tokens u t) :
    Program.body tokens = u := by
  rw [h.eq, body_append h.body]
  simp [Program.body, h.last]

theorem length_body_le (tokens : List Token) : (body tokens).length ≤ tokens.length :=
  (List.takeWhile_sublist _).length_le

theorem Terminated.lastToken_eq {tokens u : List Token} {t : Token} (h : Terminated tokens u t) :
    lastToken tokens = t := by
  rw [h.eq, lastToken_append h.body (List.cons_ne_nil t [])]
  simp [lastToken, h.last]

/-- The depth is enough for reading the whole program. -/
theorem depth_enough (tokens : List Token) :
    16 * (body tokens).length + 13 ≤ depthBound tokens := by
  have := length_body_le tokens
  rw [depthBound]
  omega

/-- What reading a program comes to. -/
theorem ofTokens_spec (nextId : Nat) (tokens : List Token) :
    nextId ≤ (ofTokens nextId tokens).nextId ∧
      match (ofTokens nextId tokens).outcome with
      | .ok program => Builds .declarations (body tokens) program ∧
          Numbered nextId (Stmt.idsAll program) (ofTokens nextId tokens).nextId
      | .error errors => errors ≠ [] := by
  obtain ⟨result, c, used, hread, hadv, hok⟩ :=
    (Read.statementReaders (depthBound tokens)).statements (lastToken tokens)
      ⟨body tokens, #[], nextId⟩ false (depth_enough tokens)
  unfold ofTokens
  rw [hread]
  cases result with
  | error e => exact ⟨hadv.nextId, by simp⟩
  | ok program =>
    obtain ⟨hnumbered, hbuilds, hrest⟩ := hok program rfl
    refine ⟨hadv.nextId, ?_⟩
    by_cases hempty : c.errors.isEmpty = true
    · simp only [hempty, if_true]
      have hused : body tokens = used := by
        have := hadv.rest
        rwa [hrest rfl, List.append_nil] at this
      rw [hused]
      exact ⟨hbuilds (by simpa using hempty), hnumbered⟩
    · simp only [hempty]
      simpa using hempty

/-- A program that is a phrase is accepted, and its tree is the only one up to identities. -/
theorem ofTokens_of_builds (nextId : Nat) {tokens : List Token} {ss : List Stmt}
    (h : Builds .declarations (body tokens) ss) :
    ∃ program, (ofTokens nextId tokens).outcome = .ok program ∧
      Stmt.eraseAll program = Stmt.eraseAll ss := by
  obtain ⟨program, c, hread, -, herrors, hprogram⟩ :=
    Read.taken_of_builds h (depthBound tokens) [] false (depth_enough tokens) (.inl ⟨rfl, rfl⟩)
      (lastToken tokens) ⟨body tokens, #[], nextId⟩ (List.append_nil _).symm
  refine ⟨program, ?_, hprogram⟩
  unfold ofTokens
  rw [hread]
  simp [herrors]

/-- Programs derive from the grammar, with literals where they belong, if and only if they are
phrases. -/
theorem derives_iff_builds {tokens u : List Token} {last : Token} (h : Terminated tokens u last) :
    (Derives (.rule .program) tokens ∧ ∀ t ∈ tokens, HasLiteral t) ↔
      ∃ ss, Builds .declarations u ss := by
  constructor
  · rintro ⟨hderives, hliteral⟩
    obtain ⟨v, last', ss, heq, -, hss⟩ := hderives.matches buildable_closed hliteral
    obtain ⟨rfl, -⟩ := List.append_inj' (h.eq.symm.trans heq) rfl
    exact ⟨ss, hss⟩
  · rintro ⟨ss, hss⟩
    rw [h.eq]
    refine ⟨.rule (hss.derivable.cons (Derives.last (.token h.last))), fun t ht => ?_⟩
    rcases List.mem_append.1 ht with ht | ht
    · exact hss.hasLiteral t ht
    · obtain rfl := List.mem_singleton.1 ht
      rintro (hkind | hkind) <;> rw [h.last] at hkind <;> cases hkind

/-- Reading accepts just the grammar.  What is accepted becomes the tree of its phrase, which is the
only one up to identities; anything else is refused with at least one error. -/
theorem ofTokens_accepts_grammar (nextId : Nat) {tokens u : List Token} {last : Token}
    (h : Terminated tokens u last) :
    ((∃ program, (ofTokens nextId tokens).outcome = .ok program) ↔
      Derives (.rule .program) tokens ∧ ∀ t ∈ tokens, HasLiteral t) ∧
    (∀ program, (ofTokens nextId tokens).outcome = .ok program →
      Builds .declarations u program ∧
        ∀ ss, Builds .declarations u ss → Stmt.eraseAll ss = Stmt.eraseAll program) ∧
    (∀ errors, (ofTokens nextId tokens).outcome = .error errors → errors ≠ []) := by
  have hspec := (ofTokens_spec nextId tokens).2
  have htree (ss : List Stmt) (hss : Builds .declarations u ss) :
      ∃ program, (ofTokens nextId tokens).outcome = .ok program ∧
        Stmt.eraseAll program = Stmt.eraseAll ss :=
    ofTokens_of_builds nextId (h.body_eq ▸ hss)
  refine ⟨?_, fun program hok => ?_, fun errors herror => ?_⟩
  · rw [derives_iff_builds h]
    constructor
    · rintro ⟨program, hok⟩
      rw [hok, h.body_eq] at hspec
      exact ⟨program, hspec.1⟩
    · rintro ⟨ss, hss⟩
      obtain ⟨program, hok, -⟩ := htree ss hss
      exact ⟨program, hok⟩
  · rw [hok, h.body_eq] at hspec
    refine ⟨hspec.1, fun ss hss => ?_⟩
    obtain ⟨program', hok', herase⟩ := htree ss hss
    rw [hok] at hok'
    obtain rfl : program = program' := by simpa using hok'
    exact herase.symm
  · rw [herror] at hspec
    exact hspec

theorem ofTokens_accepts_print :
    Derives (.rule .program) [⟨.printWord, "print", none, 1⟩, ⟨.nilWord, "nil", none, 1⟩,
      ⟨.semicolon, ";", none, 1⟩, .endOfInput 1] ∧
    Builds .declarations [⟨.printWord, "print", none, 1⟩, ⟨.nilWord, "nil", none, 1⟩,
      ⟨.semicolon, ";", none, 1⟩] [.print (.constant .nil)] := by
  let u : List Token := [⟨.printWord, "print", none, 1⟩, ⟨.nilWord, "nil", none, 1⟩,
    ⟨.semicolon, ";", none, 1⟩]
  have h : Terminated (u ++ [.endOfInput 1]) u (.endOfInput 1) := ⟨rfl, rfl, by decide⟩
  obtain ⟨haccepts, htree, -⟩ := ofTokens_accepts_grammar 0 h
  have hok : (ofTokens 0 (u ++ [.endOfInput 1])).outcome = .ok [.print (.constant .nil)] := rfl
  exact ⟨(haccepts.1 ⟨_, hok⟩).1, (htree _ hok).1⟩

end Program

end ClassScript
