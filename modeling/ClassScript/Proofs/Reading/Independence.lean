import ClassScript.Proofs.Reading.Program
import ClassScript.Proofs.Reading.Relabeling
import ClassScript.Proofs.Rules.Respect

/-! # What reading does not depend on

What is read within a depth is read in the same way within any greater depth, so all depths that
are enough give the same result.  A program is read alike from all token lists with the same tokens
up to the end token, and up to identities wherever the counter of references starts.
-/
namespace ClassScript

namespace Read

open Rules

variable {α : Type} {last : Token} {c c' : Cursor} {n n' : Nat}

/-- What the first reader yields, the second one yields too. -/
def Deepens (α : Type) (r r' : Read α) : Prop :=
  ∀ last c x, r last c = some x → r' last c = some x

theorem deepens_refl (r : Read α) : Deepens α r r := fun _ _ _ h => h

theorem deepens_bind {β : Type} {r r' : Read α} {f f' : α → Read β} (hr : Deepens α r r')
    (hf : ∀ a, Deepens β (f a) (f' a)) : Deepens β (r >>= f) (r' >>= f') := by
  intro last c x h
  simp only [Bind.bind, Read.bind] at h ⊢
  cases hread : r last c with
  | none => simp [hread] at h
  | some first =>
    rw [hr last c first hread]
    rw [hread] at h
    obtain ⟨e | a, c'⟩ := first
    · exact h
    · exact hf a last c' x h

theorem deepens_recovering {r r' : Read α} (hr : Deepens α r r') :
    Deepens (Option α) (recovering r) (recovering r') := by
  intro last c x h
  simp only [recovering] at h ⊢
  cases hread : r last c with
  | none => simp [hread] at h
  | some first =>
    rw [hr last c first hread]
    rwa [hread] at h

/-- The rules respect that a reader goes deeper. -/
theorem respects_deepens : Rules.Respects Deepens where
  pure _ := deepens_refl _
  bind := deepens_bind
  map _ h := deepens_bind h fun _ => deepens_refl _
  exhausted _ _ _ _ h := nomatch h
  fail _ _ := deepens_refl _
  note _ _ := deepens_refl _
  freshId := deepens_refl _
  peek := deepens_refl _
  sees _ := deepens_refl _
  acceptOther _ _ := deepens_refl _
  atEnd := deepens_refl _
  acceptIf _ := deepens_refl _
  recovering _ _ := deepens_recovering

theorem statements_deepens (h : n ≤ n') (inBlock : Bool) :
    Deepens (List Stmt) (statements n inBlock) (statements n' inBlock) :=
  (respects_deepens.all h).statements inBlock

theorem declaration_deepens (h : n ≤ n') :
    Deepens Stmt (declaration n) (declaration n') :=
  (respects_deepens.all h).declaration

/-- All depths that are enough for the tokens that are left give the same result. -/
theorem statements_eq_of_enough (last : Token) (inBlock : Bool) (hn : 16 * c.rest.length + 13 ≤ n)
    (hn' : 16 * c.rest.length + 13 ≤ n') :
    statements (m := Read) n inBlock last c = statements (m := Read) n' inBlock last c := by
  obtain ⟨result, c', used, hread, -⟩ :=
    (statementReaders (16 * c.rest.length + 13)).statements last c inBlock (Nat.le_refl _)
  rw [statements_deepens hn inBlock last c _ hread, statements_deepens hn' inBlock last c _ hread]

/-- The reader records what fails and does not fail itself. -/
def Succeeds (r : Read α) : Prop :=
  ∀ last c result c', r last c = some (result, c') → ∃ a, result = .ok a

namespace Succeeds

theorem pure (a : α) : Succeeds (Pure.pure a) := by
  intro last c result c' h
  obtain ⟨rfl, -⟩ := Prod.mk.inj (Option.some.inj h)
  exact ⟨a, rfl⟩

theorem bind {β : Type} {r : Read α} {f : α → Read β} (hr : Succeeds r)
    (hf : ∀ a, Succeeds (f a)) : Succeeds (r >>= f) := by
  intro last c result c'' h
  simp only [Bind.bind, Read.bind] at h
  cases hread : r last c with
  | none => simp [hread] at h
  | some first =>
    obtain ⟨a?, c'⟩ := first
    obtain ⟨a, rfl⟩ := hr last c a? c' hread
    rw [hread] at h
    exact hf a last c' result c'' h

theorem recovering (r : Read α) : Succeeds (Read.recovering r) := by
  intro last c result c' h
  simp only [Read.recovering] at h
  cases hread : r last c with
  | none => simp [hread] at h
  | some first =>
    rw [hread] at h
    obtain ⟨_ | a, c₁⟩ := first
    · exact ⟨none, (congrArg Prod.fst (Option.some.inj h)).symm⟩
    · exact ⟨some a, (congrArg Prod.fst (Option.some.inj h)).symm⟩

theorem statements (n : Nat) (inBlock : Bool) : Succeeds (Rules.statements n inBlock) := by
  induction n with
  | zero =>
    intro last c result c' h
    nomatch h
  | succ n ih =>
    have hatEnd : Succeeds Read.atEnd := fun _ _ _ _ h =>
      ⟨_, (congrArg Prod.fst (Option.some.inj h)).symm⟩
    have hsees : Succeeds (Read.sees .rightBrace) := fun _ _ _ _ h =>
      ⟨_, (congrArg Prod.fst (Option.some.inj h)).symm⟩
    rw [Rules.statements]
    apply hatEnd.bind
    intro atEnd
    apply hsees.bind
    intro closing
    split
    · exact .pure []
    · apply (Succeeds.recovering _).bind
      intro first
      exact ih.bind fun others => .pure _

end Succeeds

/-- Whether it succeeds or fails, reading a declaration uses up at least one token. -/
theorem recovering_declaration_shortens {result : Except GrammarError (Option Stmt)}
    (hrest : c.rest ≠ []) (h : recovering (declaration n) last c = some (result, c')) :
    c'.rest.length < c.rest.length := by
  -- the result is that of a depth that is enough, and there the promises of readers hold
  have hdeep := deepens_recovering
    (declaration_deepens (Nat.le_max_left n (16 * c.rest.length + 12))) last c _ h
  have hmeets : Meets (recovering (declaration (max n (16 * c.rest.length + 12)))) last c
      fun used _ _ => used ≠ [] := by
    apply Meets.recovering
    · apply ((statementReaders _).declaration last c (Nat.le_max_right _ _)).mono
      intro used s c' _ hs
      exact hs.progress
    · intro used c' _ _ hprogress
      exact hprogress hrest
  obtain ⟨result', c'', used, hread, hadv, hok⟩ := hmeets
  obtain ⟨rfl, rfl⟩ := Prod.mk.inj (Option.some.inj (hdeep.symm.trans hread))
  obtain ⟨s?, rfl⟩ := Succeeds.recovering _ last c _ _ h
  have hpos := List.length_pos_iff.2 (hok s? rfl)
  have hlength := hadv.length
  omega

end Read

namespace Program

/-- Reading depends on the tokens up to the end token only. -/
theorem ofTokens_congr (nextId : Nat) {tokens tokens' : List Token}
    (hbody : body tokens = body tokens') (hlast : lastToken tokens = lastToken tokens') :
    ofTokens nextId tokens = ofTokens nextId tokens' := by
  let c : Cursor := ⟨body tokens, #[], nextId⟩
  have hdepth : 16 * c.rest.length + 13 ≤ depthBound tokens := depth_enough tokens
  have hdepth' : 16 * c.rest.length + 13 ≤ depthBound tokens' := by
    show 16 * (body tokens).length + 13 ≤ depthBound tokens'
    rw [hbody]
    exact depth_enough tokens'
  have hread := Read.statements_eq_of_enough (lastToken tokens) false hdepth hdepth'
  rw [ofTokens, ofTokens, ← hbody, ← hlast, hread]

theorem ofTokens_counter_of_le {i j : Nat} (h : i ≤ j) (tokens : List Token) :
    (ofTokens j tokens).outcome.map Stmt.eraseAll =
      (ofTokens i tokens).outcome.map Stmt.eraseAll := by
  let ρ := Relabeling.shift i (j - i)
  have hline := Relabeling.keepsLines_shift i (j - i)
  have hnumber : ρ.number i = j := by
    rw [Relabeling.shift_of_ge (Nat.le_refl i)]
    omega
  have htokens := Token.map_relabel_eq_self hline tokens
  have hlast : lastToken (tokens.map (Token.relabel ρ)) = (lastToken tokens).relabel ρ := by
    rw [htokens, Token.relabel_eq_self hline]
  have hshift := (ofTokens_relabel (Relabeling.countsFrom_shift i (j - i)) hlast).1
  rw [htokens, hnumber] at hshift
  cases hread : (ofTokens i tokens).outcome with
  | error errors =>
    rw [hshift, hread]
    dsimp only
    rw [GrammarError.map_relabel_eq_self hline]
  | ok program =>
    -- the tree is that of the phrase, whatever its identities are
    have hspec := (ofTokens_spec i tokens).2
    rw [hread] at hspec
    obtain ⟨program', hread', herase⟩ := ofTokens_of_builds j hspec.1
    rw [hread']
    exact congrArg Except.ok herase

/-- Wherever the counter starts, the same errors are found, or the same tree up to identities. -/
theorem ofTokens_counter (i j : Nat) (tokens : List Token) :
    (ofTokens j tokens).outcome.map Stmt.eraseAll =
      (ofTokens i tokens).outcome.map Stmt.eraseAll := by
  rcases Nat.le_total i j with h | h
  · exact ofTokens_counter_of_le h tokens
  · exact (ofTokens_counter_of_le h tokens).symm

theorem ofTokens_again (i j : Nat) (tokens : List Token) :
    match (ofTokens i tokens).outcome with
    | .ok program => ∃ program', (ofTokens j tokens).outcome = .ok program' ∧
        Stmt.eraseAll program' = Stmt.eraseAll program
    | .error errors => (ofTokens j tokens).outcome = .error errors := by
  have hcounter := ofTokens_counter i j tokens
  cases hi : (ofTokens i tokens).outcome with
  | error errors =>
    cases hj : (ofTokens j tokens).outcome with
    | error errors' =>
      rw [hi, hj] at hcounter
      exact hcounter
    | ok program' =>
      rw [hi, hj] at hcounter
      nomatch hcounter
  | ok program =>
    cases hj : (ofTokens j tokens).outcome with
    | error errors' =>
      rw [hi, hj] at hcounter
      nomatch hcounter
    | ok program' =>
      rw [hi, hj] at hcounter
      exact ⟨program', rfl, Except.ok.inj hcounter⟩

end Program

end ClassScript
