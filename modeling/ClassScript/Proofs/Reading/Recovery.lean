import ClassScript.Proofs.Reading.Independence
import Mathlib.Data.List.Forall2

/-! # Errors of simple statements

A simple statement ends in its only semicolon and holds neither a brace nor, behind its first
token, a word that begins a statement.  No rule of expressions takes a semicolon, so what is read
before it depends neither on what follows it nor on what was read before.  A failure leaves the
semicolon to be read, reading resumes right behind it, and so no simple statement hides or adds an
error elsewhere.
-/
namespace ClassScript

/-- A token list that ends in its only semicolon. -/
inductive Delimited : List Token → Prop where
  | semicolon {t : Token} (ht : t.kind = .semicolon) : Delimited [t]
  | cons {t : Token} {w : List Token} (ht : t.kind ≠ .semicolon) (hw : Delimited w) :
    Delimited (t :: w)

/-- A token list that is one statement without statements inside, as far as its semicolon, braces
and statement words tell. -/
structure Simple (w : List Token) : Prop where
  delimited : Delimited w
  flat : ∀ t ∈ w, t.kind ∉ [.leftBrace, .rightBrace, .endOfInput]
  head : ∀ t ∈ w.head?, t.kind ∉ [.classWord, .funWord, .forWord, .ifWord, .whileWord]
  tail : ∀ t ∈ w.tail, t.kind ∉ [.classWord, .funWord, .varWord, .forWord, .ifWord, .whileWord,
    .printWord, .returnWord]

theorem Delimited.ne_nil {w : List Token} (h : Delimited w) : w ≠ [] := by
  cases h <;> exact List.cons_ne_nil _ _

theorem Simple.not_end {w : List Token} (h : Simple w) : ∀ t ∈ w, t.kind ≠ .endOfInput := by
  intro t ht hkind
  simpa [hkind] using h.flat t ht

/-- The same cursor within a longer text: more tokens stand behind its own, and more errors were
recorded before. -/
def Cursor.within (before : Array GrammarError) (behind : List Token) (c : Cursor) : Cursor :=
  ⟨c.rest ++ behind, before ++ c.errors, c.nextId⟩

namespace Read

open Rules

variable {before : Array GrammarError} {behind : List Token} {n n' : Nat} {last last' : Token}
  {c : Cursor}

/-- Where a reader of the tokens `u` ends: a value stands behind their semicolon, a failure before
it. -/
def Ended {α : Type} (u : List Token) : Except GrammarError α → Cursor → Prop
  | .error _, d => Delimited d.rest ∧ d.rest <:+ u
  | .ok _, d => d.rest = []

/-- The second reader does within a longer text what the first one does, and that ends in the way
that is stated. -/
def Accords {α : Type} (before : Array GrammarError) (behind : List Token)
    (ends : List Token → Except GrammarError α → Cursor → Prop) (r r' : Read α) : Prop :=
  ∀ last last' c result d, Delimited c.rest → r last c = some (result, d) →
    ends c.rest result d ∧
      r' last' (c.within before behind) = some (result, d.within before behind)

/-- The readers do the same and do not take the semicolon. -/
def Parallel (before : Array GrammarError) (behind : List Token) (α : Type) (r r' : Read α) :
    Prop :=
  Accords before behind (fun u _ d => Delimited d.rest ∧ d.rest <:+ u) r r'

/-- The readers do the same up to the semicolon, which they take unless they fail. -/
def Closes (before : Array GrammarError) (behind : List Token) (α : Type) (r r' : Read α) : Prop :=
  Accords before behind Ended r r'

theorem Ended.of_suffix {α : Type} {u v : List Token} {result : Except GrammarError α}
    {d : Cursor} (h : Ended u result d) (hsuffix : u <:+ v) : Ended v result d := by
  cases result with
  | error e => exact ⟨h.1, h.2.trans hsuffix⟩
  | ok a => exact h

theorem Accords.bind {α β : Type} {ends : List Token → Except GrammarError β → Cursor → Prop}
    {r r' : Read α} {f f' : α → Read β} (hr : Parallel before behind α r r')
    (hf : ∀ a, Accords before behind ends (f a) (f' a))
    (herror : ∀ u e d, Delimited d.rest → d.rest <:+ u → ends u (.error e) d)
    (hsuffix : ∀ u v result d, ends u result d → u <:+ v → ends v result d) :
    Accords before behind ends (r >>= f) (r' >>= f') := by
  intro last last' c result d hc h
  simp only [Bind.bind, Read.bind] at h ⊢
  cases hread : r last c with
  | none => simp [hread] at h
  | some first =>
    obtain ⟨first, c₁⟩ := first
    obtain ⟨⟨hc₁, hleft⟩, hread'⟩ := hr last last' c first c₁ hc hread
    rw [hread] at h
    rw [hread']
    cases first with
    | error e =>
      obtain ⟨rfl, rfl⟩ := Prod.mk.inj (Option.some.inj h)
      exact ⟨herror _ e c₁ hc₁ hleft, rfl⟩
    | ok a =>
      obtain ⟨hd, hread''⟩ := hf a last last' c₁ result d hc₁ h
      exact ⟨hsuffix _ _ result d hd hleft, hread''⟩

theorem parallel_pure {α : Type} (a : α) : Parallel before behind α (pure a) (pure a) := by
  rintro last last' c result d hc ⟨⟩
  exact ⟨⟨hc, List.suffix_rfl⟩, rfl⟩

theorem parallel_bind {α β : Type} {r r' : Read α} {f f' : α → Read β}
    (hr : Parallel before behind α r r') (hf : ∀ a, Parallel before behind β (f a) (f' a)) :
    Parallel before behind β (r >>= f) (r' >>= f') :=
  Accords.bind hr hf (fun _ _ _ hd hu => ⟨hd, hu⟩) fun _ _ _ _ hd hu => ⟨hd.1, hd.2.trans hu⟩

theorem closes_bind {α β : Type} {r r' : Read α} {f f' : α → Read β}
    (hr : Parallel before behind α r r') (hf : ∀ a, Closes before behind β (f a) (f' a)) :
    Closes before behind β (r >>= f) (r' >>= f') :=
  Accords.bind hr hf (fun _ _ _ hd hu => ⟨hd, hu⟩) fun _ _ _ _ hd hu => hd.of_suffix hu

theorem parallel_acceptIf {p : Token → Bool} (hp : ∀ t, t.kind = .semicolon → p t = false) :
    Parallel before behind (Option Token) (acceptIf p) (acceptIf p) := by
  intro last last' c result d hc h
  obtain ⟨rest, errors, nextId⟩ := c
  simp only [acceptIf, Cursor.within] at h ⊢
  cases hc with
  | semicolon ht =>
    simp only [hp _ ht, Bool.false_eq_true, if_false, List.cons_append] at h ⊢
    obtain ⟨rfl, rfl⟩ := Prod.mk.inj (Option.some.inj h)
    exact ⟨⟨.semicolon ht, List.suffix_rfl⟩, rfl⟩
  | @cons t w ht hw =>
    cases hpt : p t with
    | true =>
      simp only [hpt, if_true, List.cons_append] at h ⊢
      obtain ⟨rfl, rfl⟩ := Prod.mk.inj (Option.some.inj h)
      exact ⟨⟨hw, List.suffix_cons t w⟩, rfl⟩
    | false =>
      simp only [hpt, Bool.false_eq_true, if_false, List.cons_append] at h ⊢
      obtain ⟨rfl, rfl⟩ := Prod.mk.inj (Option.some.inj h)
      exact ⟨⟨.cons ht hw, List.suffix_rfl⟩, rfl⟩

theorem within_head (hc : Delimited c.rest) :
    (c.within before behind).rest.head? = c.rest.head? := by
  rw [Cursor.within, List.head?_append, Option.or_of_isSome (List.isSome_head?.2 hc.ne_nil)]

theorem respectsExpressions_parallel :
    Rules.RespectsExpressions (Parallel before behind) where
  pure := parallel_pure
  bind := parallel_bind
  map _ h := parallel_bind h fun _ => parallel_pure _
  exhausted _ _ _ _ _ _ _ h := nomatch h
  fail _ _ := by
    rintro last last' c result d hc ⟨⟩
    exact ⟨⟨hc, List.suffix_rfl⟩, rfl⟩
  note _ _ := by
    rintro last last' c result d hc ⟨⟩
    exact ⟨⟨hc, List.suffix_rfl⟩, by simp [TokenReader.note, note, Cursor.within]⟩
  freshId := by
    rintro last last' c result d hc ⟨⟩
    exact ⟨⟨hc, List.suffix_rfl⟩, rfl⟩
  peek := by
    rintro last last' c result d hc ⟨⟩
    refine ⟨⟨hc, List.suffix_rfl⟩, ?_⟩
    simp only [TokenReader.peek, peek, List.headD_eq_head?_getD, within_head hc]
    obtain ⟨t, ht⟩ := Option.isSome_iff_exists.1 (List.isSome_head?.2 hc.ne_nil)
    rw [ht]
    rfl
  sees _ := by
    rintro last last' c result d hc ⟨⟩
    refine ⟨⟨hc, List.suffix_rfl⟩, ?_⟩
    simp only [TokenReader.sees, sees, within_head hc]
  acceptOther _ hp := parallel_acceptIf hp

/-- Either the semicolon stands there, or what stands in its place is reported. -/
theorem closes_semicolon {α : Type} (cause : GrammarCause) (a : α) :
    Closes before behind α (Rules.expect .semicolon cause >>= fun _ => Pure.pure a)
      (Rules.expect .semicolon cause >>= fun _ => Pure.pure a) := by
  intro last last' c result d hc h
  obtain ⟨rest, errors, nextId⟩ := c
  cases hc with
  | @semicolon t ht =>
    have hread (last : Token) (rest : List Token) (errors : Array GrammarError) :
        (Rules.expect .semicolon cause >>= fun _ => Pure.pure a : Read α) last
          ⟨t :: rest, errors, nextId⟩ = some (.ok a, ⟨rest, errors, nextId⟩) := by
      simp [Rules.expect, Rules.accept, TokenReader.acceptIf, acceptIf, Bind.bind, Read.bind,
        Pure.pure, Read.pure, ht]
    rw [hread] at h
    obtain ⟨rfl, rfl⟩ := Prod.mk.inj (Option.some.inj h)
    exact ⟨rfl, hread last' behind _⟩
  | @cons t w ht hw =>
    have hread (last : Token) (rest : List Token) (errors : Array GrammarError) :
        (Rules.expect .semicolon cause >>= fun _ => Pure.pure a : Read α) last
          ⟨t :: rest, errors, nextId⟩ = some (.error ⟨t, cause⟩, ⟨t :: rest, errors, nextId⟩) := by
      simp [Rules.expect, Rules.accept, TokenReader.acceptIf, acceptIf, TokenReader.peek, peek,
        TokenReader.fail, fail, Bind.bind, Read.bind, ht]
    rw [hread] at h
    obtain ⟨rfl, rfl⟩ := Prod.mk.inj (Option.some.inj h)
    exact ⟨⟨.cons ht hw, List.suffix_rfl⟩, hread last' (w ++ behind) _⟩

theorem respectsClosing_closes :
    Rules.RespectsClosing (Parallel before behind) (Closes before behind) where
  toRespectsExpressions := respectsExpressions_parallel
  before := closes_bind
  closed := closes_semicolon

theorem bind_acceptAny {α : Type} {kinds : List Token.Kind} {f : Option Token → Read α} {t : Token}
    {w : List Token} (hrest : c.rest = t :: w) :
    (acceptAny kinds >>= f) last c =
      if t.kind ∈ kinds then f (some t) last { c with rest := w } else f none last c := by
  by_cases ht : t.kind ∈ kinds <;>
    simp [Bind.bind, Read.bind, acceptAny, TokenReader.acceptIf, acceptIf, hrest, ht]

/-- A declaration that is neither compound nor a block is read by the rule that its first token
selects. -/
theorem declaration_simple {t : Token} {w : List Token} (hrest : c.rest = t :: w)
    (ht : t.kind ∉ [.classWord, .funWord, .forWord, .ifWord, .whileWord, .leftBrace]) :
    declaration (m := Read) (n + 2) last c =
      match t.kind with
      | .varWord => varStmt (m := Read) (n + 1) last { c with rest := w }
      | .returnWord => returnStmt (m := Read) n t last { c with rest := w }
      | .printWord => printStmt (m := Read) n last { c with rest := w }
      | _ => exprStmt (m := Read) n last c := by
  rw [declaration, bind_acceptAny hrest]
  by_cases hvar : t.kind = .varWord
  · simp [hvar]
  by_cases hreturn : t.kind = .returnWord
  · simp [hreturn, statement, bind_acceptAny hrest]
  by_cases hprint : t.kind = .printWord
  · simp [hprint, statement, bind_acceptAny hrest]
  have hdeclared : t.kind ∉ [.classWord, .funWord, .varWord] := by simp_all
  have hstated : t.kind ∉ [.forWord, .ifWord, .whileWord, .returnWord, .leftBrace, .printWord] := by
    simp_all
  simp only [if_neg hdeclared, statement, bind_acceptAny hrest, if_neg hstated]

/-- A simple statement is read within a longer text as it is alone. -/
theorem closes_declaration {result : Except GrammarError Stmt} {d : Cursor} (h : Simple c.rest)
    (hn : n ≤ n') (hread : declaration (m := Read) (n + 2) last c = some (result, d)) :
    Ended c.rest result d ∧
      declaration (m := Read) (n' + 2) last' (c.within before behind) =
        some (result, d.within before behind) := by
  have hdelimited := h.delimited
  obtain ⟨t, w, hrest⟩ := List.exists_cons_of_ne_nil hdelimited.ne_nil
  have hrest' : (c.within before behind).rest = t :: (w ++ behind) := by
    rw [Cursor.within, hrest, List.cons_append]
  have hkind : t.kind ∉ [.classWord, .funWord, .forWord, .ifWord, .whileWord, .leftBrace] := by
    have hhead := h.head t (by simp [hrest])
    have hflat := h.flat t (by simp [hrest])
    simp_all
  -- the semicolon delimits what stands behind the word that selects a rule
  have hbehind {r r' : Read Stmt} (hword : t.kind ≠ .semicolon)
      (hclosed : Closes before behind Stmt r r')
      (hread : r last { c with rest := w } = some (result, d)) :
      Ended c.rest result d ∧
        r' last' { c.within before behind with rest := w ++ behind } =
          some (result, d.within before behind) := by
    rw [hrest] at hdelimited ⊢
    have hw : Delimited w := by
      cases hdelimited with
      | semicolon ht => exact absurd ht hword
      | cons _ hw => exact hw
    obtain ⟨hd, hread'⟩ := hclosed last last' { c with rest := w } result d hw hread
    exact ⟨hd.of_suffix (List.suffix_cons t w), hread'⟩
  have hclosing : Rules.RespectsClosing (Parallel before behind) (Closes before behind) :=
    respectsClosing_closes
  rw [declaration_simple hrest hkind] at hread
  rw [declaration_simple hrest' hkind]
  split at hread
  case h_1 hvar =>
    refine hbehind (by simp [hvar]) ?_ hread
    exact hclosing.varStmt (Nat.succ_le_succ hn)
  case h_2 hreturn =>
    refine hbehind (by simp [hreturn]) ?_ hread
    exact hclosing.returnStmt hn t
  case h_3 hprint =>
    refine hbehind (by simp [hprint]) ?_ hread
    exact hclosing.printStmt hn
  case h_4 =>
    have hclosed : Closes before behind Stmt (exprStmt n) (exprStmt n') := hclosing.exprStmt hn
    exact hclosed last last' c result d hdelimited hread

/-- Reading resumes behind the semicolon. -/
theorem resume_append {v : List Token} (hv : Delimited v)
    (hwords : ∀ t ∈ v.tail, Token.beginsStatement t = false) : resume (v ++ behind) = behind := by
  induction hv with
  | semicolon ht => simp [resume, ht]
  | @cons t w ht hw ih =>
    obtain ⟨t', w', rfl⟩ := List.exists_cons_of_ne_nil hw.ne_nil
    rw [List.tail_cons, List.forall_mem_cons] at hwords
    rw [List.cons_append, resume, if_neg, ih hwords.2]
    simp [ht, hwords.1]

/-- Wherever reading a simple statement fails, it resumes behind the statement. -/
theorem resume_simple {v w : List Token} (h : Simple w) (hv : Delimited v) (hsuffix : v <:+ w) :
    resume (v ++ behind) = behind := by
  apply resume_append hv
  intro t ht
  have htail : t ∈ w.tail := by
    obtain ⟨u, rfl⟩ := hsuffix
    cases u with
    | nil => exact ht
    | cons _ u => exact List.mem_append_right u (List.mem_of_mem_tail ht)
  simpa [Token.beginsStatement] using h.tail t htail

/-- What reading the declaration `w` comes to does not depend on what stands around it. -/
def Settles (w : List Token) (i : Nat) (s : Option Stmt) (errors : Array GrammarError) (j : Nat) :
    Prop :=
  ∀ n last before behind, 16 * w.length + 12 ≤ n →
    recovering (declaration n) last ⟨w ++ behind, before, i⟩ =
      some (.ok s, ⟨behind, before ++ errors, j⟩)

theorem settles_of_simple {w : List Token} (h : Simple w) (i : Nat) :
    ∃ s errors j, Settles w i s errors j := by
  let c : Cursor := ⟨w, #[], i⟩
  obtain ⟨result, d, -, hread, -⟩ :=
    (statementReaders (16 * w.length + 10 + 2)).declaration default c (Nat.le_refl _)
  have hclosed {n : Nat} (last : Token) (before : Array GrammarError) (behind : List Token)
      (hn : 16 * w.length + 12 ≤ n) :
      Ended w result d ∧
        declaration (m := Read) n last ⟨w ++ behind, before, i⟩ =
          some (result, d.within before behind) := by
    obtain ⟨m, rfl⟩ : ∃ m, n = m + 2 := ⟨n - 2, by omega⟩
    exact closes_declaration (c := c) h (by omega) hread
  cases result with
  | error e =>
    refine ⟨none, d.errors.push e, d.nextId, fun n last before behind hn => ?_⟩
    obtain ⟨⟨hd, hsuffix⟩, hread'⟩ := hclosed last before behind hn
    simp [recovering, hread', Cursor.within, resume_simple h hd hsuffix]
  | ok s =>
    refine ⟨some s, d.errors, d.nextId, fun n last before behind hn => ?_⟩
    obtain ⟨hd, hread'⟩ := hclosed last before behind hn
    have hrest : d.rest = [] := hd
    simp [recovering, hread', Cursor.within, hrest]

theorem statements_nil (n : Nat) (last : Token) (errors : Array GrammarError) (i : Nat) :
    statements (m := Read) (n + 1) false last ⟨[], errors, i⟩ =
      some (.ok [], ⟨[], errors, i⟩) :=
  rfl

/-- Reading goes on behind the declaration. -/
theorem statements_settles {w : List Token} {i j : Nat} {s : Option Stmt}
    {errors : Array GrammarError} (h : Settles w i s errors j) (hne : w ≠ [])
    (hn : 16 * w.length + 12 ≤ n) (last : Token) (before : Array GrammarError)
    (behind : List Token) :
    statements (m := Read) (n + 1) false last ⟨w ++ behind, before, i⟩ =
      ((s.toList ++ ·) <$> statements (m := Read) n false) last ⟨behind, before ++ errors, j⟩ := by
  have hsettles := h n last before behind hn
  have hnonempty : (w ++ behind).isEmpty = false := by simp [hne]
  rw [statements]
  simp only [Bind.bind, Read.bind, TokenReader.atEnd, atEnd, TokenReader.sees, sees,
    TokenReader.recovering, hnonempty, Bool.false_and, Bool.or_false, Bool.false_eq_true, if_false,
    hsettles]
  rfl

end Read

namespace Program

open Read (Settles)

variable {w ends : List Token} {i j k : Nat}

/-- The errors that a reading found; a program that is accepted has none. -/
def Reading.errors (r : Reading) : List GrammarError :=
  match r.outcome with
  | .ok _ => []
  | .error errors => errors

theorem Reading.errors_eq {r : Reading} {errors : Array GrammarError} {program : Program}
    (h : r.outcome = if errors.isEmpty then .ok program else .error errors.toList) :
    r.errors = errors.toList := by
  rw [Reading.errors, h]
  by_cases hempty : errors.isEmpty = true
  · simp [Array.isEmpty_iff.1 hempty]
  · simp [hempty]

theorem errors_eq_nil_iff (i : Nat) (tokens : List Token) :
    (ofTokens i tokens).errors = [] ↔ ∃ program, (ofTokens i tokens).outcome = .ok program := by
  have hspec := (ofTokens_spec i tokens).2
  rw [Reading.errors]
  cases hread : (ofTokens i tokens).outcome with
  | ok program => simp
  | error errors =>
    rw [hread] at hspec
    simpa using hspec

theorem errors_counter (i k : Nat) (tokens : List Token) :
    (ofTokens k tokens).errors = (ofTokens i tokens).errors := by
  have hagain := ofTokens_again i k tokens
  rw [Reading.errors, Reading.errors]
  cases hi : (ofTokens i tokens).outcome with
  | error errors =>
    rw [hi] at hagain
    rw [hagain]
  | ok program =>
    rw [hi] at hagain
    obtain ⟨program', hread, -⟩ := hagain
    rw [hread]

/-- What a simple statement comes to when nothing stands around it. -/
theorem outcome_settles {s : Option Stmt} {errors : Array GrammarError} (hw : Simple w)
    (hends : body ends = []) (h : Settles w i s errors j) :
    (ofTokens i (w ++ ends)).outcome =
      if errors.isEmpty then .ok s.toList else .error errors.toList := by
  have hbody : body (w ++ ends) = w := by
    rw [body_append hw.not_end, hends, List.append_nil]
  have henough := depth_enough (w ++ ends)
  rw [hbody] at henough
  obtain ⟨n, hn⟩ : ∃ n, depthBound (w ++ ends) = n + 2 := ⟨depthBound (w ++ ends) - 2, by omega⟩
  have hread := Read.statements_settles (n := n + 1) h hw.delimited.ne_nil (by omega)
    (lastToken (w ++ ends)) #[] []
  rw [List.append_nil] at hread
  rw [ofTokens, hbody, hn, hread]
  simp [Functor.map, Read.bind, Read.statements_nil, Read.pure]

/-- Each of the statements leaves the errors and the tree that it has alone. -/
theorem statements_flatten {ws : List (List Token)} (hws : ∀ w ∈ ws, Simple w)
    (hends : body ends = []) (k : Nat) {n : Nat} (hn : 16 * ws.flatten.length + 13 ≤ n)
    (last : Token) (before : Array GrammarError) (i : Nat) :
    ∃ ss errors j, Rules.statements (m := Read) n false last ⟨ws.flatten, before, i⟩ =
        some (.ok ss, ⟨[], before ++ errors, j⟩) ∧
      errors.toList = ws.flatMap (fun w => (ofTokens k (w ++ ends)).errors) ∧
      ∀ programs, List.Forall₂ (fun w program => (ofTokens k (w ++ ends)).outcome = .ok program)
          ws programs →
        Stmt.eraseAll ss = Stmt.eraseAll programs.flatten := by
  induction ws generalizing n before i with
  | nil =>
    obtain ⟨n, rfl⟩ : ∃ m, n = m + 1 := ⟨n - 1, by omega⟩
    refine ⟨[], #[], i, ?_, rfl, ?_⟩
    · exact Read.statements_nil n last before i
    · rintro programs ⟨⟩
      rfl
  | cons w ws ih =>
    obtain ⟨n, rfl⟩ : ∃ m, n = m + 1 := ⟨n - 1, by omega⟩
    obtain ⟨hw, hws⟩ := List.forall_mem_cons.1 hws
    have hpos := List.length_pos_iff.2 hw.delimited.ne_nil
    rw [List.flatten_cons, List.length_append] at hn
    obtain ⟨s, errors, j, hsettles⟩ := Read.settles_of_simple hw i
    obtain ⟨ss, others, j', hread, hothers, htrees⟩ :=
      ih hws (n := n) (by omega) (before ++ errors) j
    have houtcome := outcome_settles hw hends hsettles
    have hagain := ofTokens_again k i (w ++ ends)
    refine ⟨s.toList ++ ss, errors ++ others, j', ?_, ?_, ?_⟩
    · rw [List.flatten_cons, Read.statements_settles hsettles hw.delimited.ne_nil (by omega)]
      simp [Functor.map, Read.bind, hread, Read.pure]
    · rw [List.flatMap_cons, Array.toList_append, hothers, errors_counter i k,
        Reading.errors_eq houtcome]
    · rintro _ (_ | ⟨hok, hoks⟩)
      rw [hok] at hagain
      obtain ⟨program', hread', herase⟩ := hagain
      have hs : s.toList = program' := by
        rw [houtcome] at hread'
        split at hread'
        · exact Except.ok.inj hread'
        · cases hread'
      rw [Stmt.eraseAll_append, List.flatten_cons, Stmt.eraseAll_append, hs, herase, htrees _ hoks]

/-- Simple statements are read one by one: whatever their tokens are, the errors found are those of
the first statement alone, then those of the second one alone, and so on.  They are accepted if each
of them is, and then the program is their trees in order, up to the identities of references. -/
theorem ofTokens_flatten {ws : List (List Token)} {ends' : List Token}
    (hws : ∀ w ∈ ws, Simple w) (hends : body ends = []) (hends' : body ends' = []) (i k : Nat) :
    (ofTokens i (ws.flatten ++ ends)).errors =
        ws.flatMap (fun w => (ofTokens k (w ++ ends')).errors) ∧
      ((∃ all, (ofTokens i (ws.flatten ++ ends)).outcome = .ok all) ↔
        ∀ w ∈ ws, ∃ program, (ofTokens k (w ++ ends')).outcome = .ok program) ∧
      ∀ all programs, (ofTokens i (ws.flatten ++ ends)).outcome = .ok all →
        List.Forall₂ (fun w program => (ofTokens k (w ++ ends')).outcome = .ok program) ws
          programs →
        Stmt.eraseAll all = Stmt.eraseAll programs.flatten := by
  have hbody : body (ws.flatten ++ ends) = ws.flatten := by
    rw [body_append, hends, List.append_nil]
    intro t ht
    obtain ⟨w, hw, ht⟩ := List.mem_flatten.1 ht
    exact (hws w hw).not_end t ht
  have henough := depth_enough (ws.flatten ++ ends)
  rw [hbody] at henough
  obtain ⟨ss, errors, j, hread, herrors, htrees⟩ :=
    statements_flatten hws hends' k henough (lastToken (ws.flatten ++ ends)) #[] i
  have houtcome : (ofTokens i (ws.flatten ++ ends)).outcome =
      if errors.isEmpty then .ok ss else .error errors.toList := by
    rw [ofTokens, hbody, hread]
    simp
  have heach : (ofTokens i (ws.flatten ++ ends)).errors =
      ws.flatMap (fun w => (ofTokens k (w ++ ends')).errors) := by
    rw [← herrors, Reading.errors_eq houtcome]
  refine ⟨heach, ?_, fun all programs hall haccepted => ?_⟩
  · rw [← errors_eq_nil_iff, heach, List.flatMap_eq_nil_iff]
    exact forall₂_congr fun w _ => errors_eq_nil_iff k (w ++ ends')
  · rw [houtcome] at hall
    split at hall
    · obtain rfl := Except.ok.inj hall
      exact htrees programs haccepted
    · cases hall

/-- All three statements are broken, the second one without a failure. -/
theorem ofTokens_flatten_broken :
    (ofTokens 0 ([[⟨.varWord, "var", none, 1⟩, ⟨.equal, "=", none, 1⟩, ⟨.semicolon, ";", none, 1⟩],
        [⟨.nilWord, "nil", none, 2⟩, ⟨.equal, "=", none, 2⟩, ⟨.trueWord, "true", none, 2⟩,
          ⟨.semicolon, ";", none, 2⟩],
        [⟨.printWord, "print", none, 3⟩, ⟨.semicolon, ";", none, 3⟩]].flatten ++
          [.endOfInput 4])).errors =
      [⟨⟨.equal, "=", none, 1⟩, .variableName⟩, ⟨⟨.equal, "=", none, 2⟩, .assignmentTarget⟩,
        ⟨⟨.semicolon, ";", none, 3⟩, .expression⟩] := by
  have hvar : Simple [⟨.varWord, "var", none, 1⟩, ⟨.equal, "=", none, 1⟩,
      ⟨.semicolon, ";", none, 1⟩] :=
    ⟨.cons (by decide) (.cons (by decide) (.semicolon rfl)), by decide, by decide, by decide⟩
  have hassign : Simple [⟨.nilWord, "nil", none, 2⟩, ⟨.equal, "=", none, 2⟩,
      ⟨.trueWord, "true", none, 2⟩, ⟨.semicolon, ";", none, 2⟩] :=
    ⟨.cons (by decide) (.cons (by decide) (.cons (by decide) (.semicolon rfl))), by decide,
      by decide, by decide⟩
  have hprint : Simple [⟨.printWord, "print", none, 3⟩, ⟨.semicolon, ";", none, 3⟩] :=
    ⟨.cons (by decide) (.semicolon rfl), by decide, by decide, by decide⟩
  have hnone : body [] = [] := rfl
  refine (ofTokens_flatten ?_ rfl hnone 0 0).1
  simp only [List.forall_mem_cons]
  exact ⟨hvar, hassign, hprint, by simp⟩

end Program

end ClassScript
