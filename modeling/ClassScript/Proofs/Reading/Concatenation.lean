import ClassScript.Proofs.Reading.Independence

/-! # Reading one token list behind another

A declaration ends where its phrase ends, whatever follows, unless `else` follows.  So a program
that is accepted does not change how the tokens behind it are read: the trees come one behind the
other, and the errors are only those of the tokens behind it.
-/
namespace ClassScript

open Grammar Rules

namespace Read

variable {n : Nat} {w rest : List Token} {ss : List Stmt}

/-- Reading goes on with the statements in `rest`, behind the trees of those that were read. -/
def followed (rest : List Token) (ss : List Stmt) : Goal (List Stmt) := fun last errors result =>
  ∃ n ss' c', result = ((ss' ++ ·) <$> statements (m := Read) n false) last c' ∧
    c'.rest = rest ∧ c'.errors = errors ∧ 16 * rest.length + 13 ≤ n ∧
      Stmt.eraseAll ss' = Stmt.eraseAll ss

/-- What follows a program is read as it stands there, if it does not begin with `else`. -/
theorem leads_followed (h : Builds .declarations w ss) (helse : Stopped [.elseWord] rest)
    (hn : 16 * (w.length + rest.length) + 13 ≤ n) :
    Leads (statements n false) w rest (followed rest ss) := by
  induction ss generalizing n w with
  | nil =>
    cases h
    intro last c hrest
    refine ⟨n, [], c, ?_, hrest, rfl, by simpa using hn, rfl⟩
    exact congrFun (congrFun (id_map (statements (m := Read) n false)) last).symm c
  | cons s ss ih =>
    obtain ⟨n, rfl⟩ : ∃ m, n = m + 1 := ⟨n - 1, by omega⟩
    cases h with
    | @declarations u v _ _ hu hv =>
    have hpos := List.length_pos_iff.2 hu.first.ne_nil
    have hbegins := (hu.first.append v).append rest
    -- only `else` could be drawn into a declaration that is complete
    have helse' : Stopped [.elseWord] (v ++ rest) := by
      rcases hv.first with rfl | hfirst
      · exact helse
      · exact stopped_of_begins (hfirst.append rest) (by decide)
    rw [List.length_append] at hn
    rw [statements]
    apply Leads.bindAtEnd
    apply Leads.bindSees
    rw [List.isEmpty_eq_false_iff.2 hbegins.ne_nil, Bool.false_and, Bool.or_false,
      if_neg Bool.false_ne_true]
    have hrecovering : Accepts (recovering (declaration n)) u (v ++ rest) fun first =>
        first.map Stmt.erase = some s.erase := by
      apply Accepts.recovering
      apply (taken_of_builds hu n (v ++ rest) _ helse').mono
      · intro s' hs
        exact congrArg some hs
      · rw [List.length_append]
        omega
    refine Leads.bind hrecovering ?_
    intro first hfirst last c hrest
    obtain ⟨s', rfl, hs⟩ := Option.map_eq_some_iff.1 hfirst
    obtain ⟨n', ss', c', hread, hrest', herrors, hn', hss⟩ := ih (n := n) hv (by omega) last c hrest
    refine ⟨n', s' :: ss', c', ?_, hrest', herrors, hn', ?_⟩
    · simp only [Bind.bind, Read.bind, hread]
      exact congrFun
        (congrFun (bind_map_left (m := Read) (ss' ++ ·) (statements n' false) _) last) c'
    · simp only [Stmt.eraseAll, hs, hss]

end Read

namespace Program

variable {front behind : List Token} {program : List Stmt}

theorem stopped_body {tokens : List Token}
    (helse : ∀ t, tokens.head? = some t → t.kind ≠ .elseWord) :
    Read.Stopped [.elseWord] (body tokens) := by
  intro t ts hbody ht
  have hhead : tokens.head? = some t := by
    have hsome : (body tokens).head? = some t := by rw [hbody, List.head?_cons]
    rw [body, List.head?_takeWhile] at hsome
    exact (Option.filter_eq_some_iff.1 hsome).1
  exact helse t hhead (List.mem_singleton.1 ht)

/-- The tokens behind a phrase are read as they are alone, with a counter that starts elsewhere. -/
theorem ofTokens_followed (h : Builds .declarations front program)
    (hfront : ∀ t ∈ front, t.kind ≠ .endOfInput) (helse : Read.Stopped [.elseWord] (body behind))
    (hne : behind ≠ []) (j : Nat) :
    ∃ k ss, Stmt.eraseAll ss = Stmt.eraseAll program ∧
      (ofTokens j (front ++ behind)).outcome = (ofTokens k behind).outcome.map (ss ++ ·) := by
  have hbody := body_append hfront behind
  have henough := depth_enough (front ++ behind)
  rw [hbody, List.length_append] at henough
  obtain ⟨n, ss, c, hread, hrest, herrors, hn, hss⟩ := Read.leads_followed h helse henough
    (lastToken behind) ⟨front ++ body behind, #[], j⟩ rfl
  refine ⟨c.nextId, ss, hss, ?_⟩
  obtain ⟨rest, errors, k⟩ := c
  obtain rfl : body behind = rest := hrest.symm
  obtain rfl : #[] = errors := herrors.symm
  have hdeep : Rules.statements (m := Read) n false (lastToken behind) ⟨body behind, #[], k⟩ =
      Rules.statements (m := Read) (depthBound behind) false (lastToken behind)
        ⟨body behind, #[], k⟩ :=
    Read.statements_eq_of_enough (lastToken behind) false hn (depth_enough behind)
  rw [ofTokens, hbody, lastToken_append hfront hne, hread, ofTokens]
  simp only [Functor.map, Read.bind, hdeep]
  cases Rules.statements (m := Read) (depthBound behind) false (lastToken behind)
      ⟨body behind, #[], k⟩ with
  | none => rfl
  | some result =>
    obtain ⟨e | others, c⟩ := result
    · rfl
    · cases hquiet : c.errors.isEmpty with
      | true => simp [Read.pure, hquiet, Except.map]
      | false => simp [Read.pure, hquiet, Except.map]

/-- A program that is accepted does not disturb what is read behind it: if that is accepted, its
statements come behind those of the program, and if not, just its errors are reported. -/
theorem ofTokens_append {i : Nat} (hfront : ∀ t ∈ front, t.kind ≠ .endOfInput)
    (haccepted : (ofTokens i front).outcome = .ok program)
    (helse : ∀ t, behind.head? = some t → t.kind ≠ .elseWord) (j k : Nat) :
    match (ofTokens k behind).outcome with
    | .ok others => ∃ all, (ofTokens j (front ++ behind)).outcome = .ok all ∧
        Stmt.eraseAll all = Stmt.eraseAll (program ++ others)
    | .error errors => (ofTokens j (front ++ behind)).outcome = .error errors := by
  have hspec := (ofTokens_spec i front).2
  have hbody := body_eq_self hfront
  rw [haccepted, hbody] at hspec
  -- without tokens behind it the end token would stand on the line of the last one in front
  by_cases hne : behind = []
  · subst hne
    obtain ⟨all, hread, herase⟩ := ofTokens_of_builds j (hbody.symm ▸ hspec.1)
    have hnothing : (ofTokens k []).outcome = .ok [] := rfl
    rw [hnothing, List.append_nil]
    exact ⟨all, hread, by rw [herase, List.append_nil]⟩
  obtain ⟨k', ss, hss, hread⟩ := ofTokens_followed hspec.1 hfront (stopped_body helse) hne j
  have hagain := ofTokens_again k k' behind
  rw [hread]
  cases hk : (ofTokens k behind).outcome with
  | error errors =>
    rw [hk] at hagain
    rw [hagain]
    rfl
  | ok others =>
    rw [hk] at hagain
    obtain ⟨others', hread', herase⟩ := hagain
    rw [hread']
    exact ⟨ss ++ others', rfl, by rw [Stmt.eraseAll_append, Stmt.eraseAll_append, hss, herase]⟩

theorem ofTokens_append_print :
    (ofTokens 0 [⟨.rightParen, ")", none, 2⟩]).outcome =
        .error [⟨⟨.rightParen, ")", none, 2⟩, .expression⟩] ∧
      (ofTokens 0 ([⟨.printWord, "print", none, 1⟩, ⟨.nilWord, "nil", none, 1⟩,
          ⟨.semicolon, ";", none, 1⟩] ++ [⟨.rightParen, ")", none, 2⟩])).outcome =
        .error [⟨⟨.rightParen, ")", none, 2⟩, .expression⟩] := by
  let front : List Token := [⟨.printWord, "print", none, 1⟩, ⟨.nilWord, "nil", none, 1⟩,
    ⟨.semicolon, ";", none, 1⟩]
  let paren : Token := ⟨.rightParen, ")", none, 2⟩
  have haccepted : (ofTokens 0 front).outcome = .ok [.print (.constant .nil)] := rfl
  have hrefused : (ofTokens 0 [paren]).outcome = .error [⟨paren, .expression⟩] := rfl
  have helse : ∀ t, [paren].head? = some t → t.kind ≠ .elseWord := by decide
  have hboth := ofTokens_append (by decide) haccepted helse 0 0
  rw [hrefused] at hboth
  exact ⟨hrefused, hboth⟩

end Program

end ClassScript
