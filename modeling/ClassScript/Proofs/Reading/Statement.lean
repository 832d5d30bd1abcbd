import ClassScript.Proofs.Reading.Expression

/-! # Reading statements yields phrases

The same promises for the readers of statements and declarations.  A statement that was read without
an error is a phrase, and if it is open, no `else` follows it.  Statement lists go on to the end of
the tokens, or in a block up to a closing brace.
-/
namespace ClassScript.Read

open Grammar Rules

/-- The next token is not of the kind. -/
def Stops (kind : Token.Kind) (c : Cursor) : Prop := ∀ t ts, c.rest = t :: ts → t.kind ≠ kind

/-- What a reader of an expression that may be absent yields. -/
structure YieldsOption (c : Cursor) (used : List Token) (value : Option Expr) (c' : Cursor) :
    Prop where
  numbered : Numbered c.nextId (Expr.idsOption value) c'.nextId
  builds : c'.errors = c.errors → Builds .optional used value

/-- What a reader of statements yields. -/
structure YieldsStmt (c : Cursor) (used : List Token) (s : Stmt) (c' : Cursor) : Prop where
  progress : used ≠ []
  numbered : Numbered c.nextId s.ids c'.nextId
  builds : c'.errors = c.errors →
    ∃ o, Builds (.statement o) used s ∧ (o = true → Stops .elseWord c')

/-- What the reader of the rest of a block yields. -/
structure YieldsBlock (c : Cursor) (used : List Token) (body : List Stmt) (c' : Cursor) : Prop where
  progress : used ≠ []
  numbered : Numbered c.nextId (Stmt.idsAll body) c'.nextId
  builds : c'.errors = c.errors →
    ∃ w right, used = w ++ [right] ∧ right.kind = .rightBrace ∧ Builds .declarations w body

/-- Parameters, or none. -/
def BuildsParameters (w : List Token) (parameters : List Token) : Prop :=
  (w = [] ∧ parameters = []) ∨ (Builds .parameters w parameters ∧ parameters.length ≤ maxArity)

/-- What the reader of a function's name and parameters yields. -/
def BuildsHead (used : List Token) (name : Token) (parameters : List Token) : Prop :=
  ∃ left u right first, used = name :: left :: (u ++ [right, first]) ∧ name.kind = .identifier ∧
    left.kind = .leftParen ∧ right.kind = .rightParen ∧ first.kind = .leftBrace ∧
    BuildsParameters u parameters

section Simple

variable {n : Nat} {last : Token} {c : Cursor}

theorem readExpression_meets (hn : 16 * c.rest.length + 10 ≤ n) :
    Meets (expression n) last c fun used e c' => Yields .expression e.ids c used e c' :=
  (expressionReaders n).expression last c hn

theorem someExpression_meets (hn : 16 * c.rest.length + 10 ≤ n) :
    Meets (some <$> expression n) last c (YieldsOption c) :=
  Meets.map ((readExpression_meets hn).mono fun _ _ _ _ he =>
    ⟨he.numbered, fun hq => .present (he.builds hq)⟩)

/-- An expression in parentheses, and what follows it. -/
theorem bindCondition {β : Type} {f : Expr → Read β} {Q : List Token → β → Cursor → Prop}
    {start close : GrammarCause} (hn : 16 * c.rest.length + 10 ≤ n)
    (h : ∀ left u right e c', left.kind = .leftParen → right.kind = .rightParen →
      Advances c (left :: (u ++ [right])) c' → Numbered c.nextId e.ids c'.nextId →
      (c'.errors = c.errors → Builds .expression u e) →
      Meets (f e) last c' fun used => Q (left :: (u ++ right :: used))) :
    Meets (do
        let _ ← expect .leftParen start
        let e ← expression n
        let _ ← expect .rightParen close
        f e) last c Q := by
  refine Meets.bindExpect fun left ts hrest hleft => ?_
  have hlen := congrArg List.length hrest
  rw [List.length_cons] at hlen
  refine Meets.bind (readExpression_meets (by simp only; omega)) fun u e c₁ hadv he => ?_
  refine Meets.bindExpect fun right ts₁ hrest₁ hright => ?_
  have hadv₁ : Advances c (left :: (u ++ [right])) { c₁ with rest := ts₁ } :=
    (hadv.trans ((Advances.refl _).skip hrest₁)).skip hrest
  exact h left u right e _ hleft hright hadv₁ he.numbered he.builds

theorem expressionUnless_meets (kind : Token.Kind) (hn : 16 * c.rest.length + 10 ≤ n) :
    Meets (expressionUnless n kind) last c (YieldsOption c) := by
  refine Meets.bindSees ?_
  split
  · exact Meets.pure ⟨.nil, fun _ => .absent⟩
  · exact someExpression_meets hn

theorem exprStmt_meets (hn : 16 * c.rest.length + 10 ≤ n) :
    Meets (exprStmt n) last c fun used s c' => Yields .exprStmt s.ids c used s c' := by
  refine Meets.bind (readExpression_meets hn) fun u e c₁ hadv he => ?_
  refine Meets.bindExpect fun semicolon ts hrest hsemicolon => Meets.pure ?_
  exact ⟨by simp, by simpa [Stmt.ids] using he.numbered,
    fun hq => .exprStmt (he.builds hq) hsemicolon⟩

theorem printStmt_meets {keyword : Token} (hkeyword : keyword.kind = .printWord)
    (hn : 16 * c.rest.length + 10 ≤ n) :
    Meets (printStmt n) last c fun used s c' => YieldsStmt c (keyword :: used) s c' := by
  refine Meets.bind (readExpression_meets hn) fun u e c₁ hadv he => ?_
  refine Meets.bindExpect fun semicolon ts hrest hsemicolon => Meets.pure ?_
  exact ⟨by simp, by simpa [Stmt.ids] using he.numbered,
    fun hq => ⟨false, .print hkeyword (he.builds hq) hsemicolon, by simp⟩⟩

theorem returnStmt_meets {keyword : Token} (hkeyword : keyword.kind = .returnWord)
    (hn : 16 * c.rest.length + 10 ≤ n) :
    Meets (returnStmt n keyword) last c fun used s c' => YieldsStmt c (keyword :: used) s c' := by
  refine Meets.bindSees ?_
  split
  · refine Meets.bindPure (Meets.bindExpect fun semicolon _ _ hsemicolon => Meets.pure ?_)
    exact ⟨by simp, .nil, fun _ => ⟨false, .ret (w := []) hkeyword .absent hsemicolon, by simp⟩⟩
  · refine Meets.bindMap (readExpression_meets hn) fun u e c₁ hadv he => ?_
    refine Meets.bindExpect fun semicolon _ _ hsemicolon => Meets.pure ?_
    exact ⟨by simp, he.numbered,
      fun hq => ⟨false, .ret hkeyword (.present (he.builds hq)) hsemicolon, by simp⟩⟩

theorem varStmt_meets {keyword : Token} (hkeyword : keyword.kind = .varWord)
    (hn : 16 * c.rest.length + 10 ≤ n) :
    Meets (varStmt n) last c fun used s c' => Yields .varDecl s.ids c (keyword :: used) s c' := by
  refine Meets.bindExpect fun name ts hrest hname => ?_
  have hlen := congrArg List.length hrest
  rw [List.length_cons] at hlen
  refine Meets.bindAccept (fun equals ts' hrest' hequals => ?_) fun _ => Meets.bindPure ?_
  · have hlen' := congrArg List.length hrest'
    simp only [List.length_cons] at hlen'
    refine Meets.bindMap (readExpression_meets (by simp only; omega)) fun u e c₁ hadv he => ?_
    refine Meets.bindExpect fun semicolon _ _ hsemicolon => Meets.pure ?_
    exact ⟨by simp, he.numbered,
      fun hq => .initialized hkeyword hname hequals (he.builds hq) hsemicolon⟩
  · refine Meets.bindExpect fun semicolon _ _ hsemicolon => Meets.pure ?_
    exact ⟨by simp, .nil, fun _ => .plainVariable hkeyword hname hsemicolon⟩

theorem forInitial_meets (hn : 16 * c.rest.length + 10 ≤ n) :
    Meets (forInitial n) last c fun used initial c' =>
      Yields .forInitial (Stmt.idsOption initial) c used initial c' := by
  refine Meets.bindAcceptAny (fun t ts hrest ht => ?_) fun _ => ?_
  · have hlen := congrArg List.length hrest
    rw [List.length_cons] at hlen
    by_cases hsemicolon : t.kind = .semicolon
    · simp only [hsemicolon, if_true]
      exact Meets.pure ⟨by simp, .nil, fun _ => .noInitial hsemicolon⟩
    · simp only [hsemicolon, if_false]
      have hvar : t.kind = .varWord := by simpa [hsemicolon] using ht
      refine Meets.map ((varStmt_meets hvar (by simp only; omega)).mono fun used s c' _ hs => ?_)
      exact ⟨hs.progress, hs.numbered, fun hq => .variableInitial (hs.builds hq)⟩
  · refine Meets.map ((exprStmt_meets hn).mono fun used s c' _ hs => ?_)
    exact ⟨hs.progress, hs.numbered, fun hq => .expressionInitial (hs.builds hq)⟩

/-- A parameter and those behind its comma. -/
theorem parametersTail_meets {count : Nat} (hn : c.rest.length < n + 1)
    (ih : ∀ c : Cursor, c.rest.length < n →
      Meets (parametersFrom n (count + 1)) last c fun used ps c' =>
        c'.errors = c.errors → Builds .parameters used ps ∧ count + 1 + ps.length ≤ maxArity) :
    Meets (do
        let first ← expect .identifier .parameterName
        match ← accept .comma with
        | none => return [first]
        | some _ => return first :: (← parametersFrom n (count + 1))) last c fun used ps c' =>
      c'.errors = c.errors →
        Builds .parameters used ps ∧ (count < maxArity → count + ps.length ≤ maxArity) := by
  refine Meets.bindExpect fun t ts hrest ht => ?_
  have hlen := congrArg List.length hrest
  rw [List.length_cons] at hlen
  refine Meets.bindAccept (fun comma ts' hrest' hcomma => ?_) fun _ => Meets.pure fun _ => ?_
  · have hlen' := congrArg List.length hrest'
    simp only [List.length_cons] at hlen'
    refine Meets.bind (ih _ (by simp only; omega)) fun u ps c₁ hadv hps => ?_
    refine Meets.pure fun hq => ?_
    obtain ⟨hbuilds, hmax⟩ := hps hq
    rw [List.append_nil]
    refine ⟨.parameter ht hcomma hbuilds, fun _ => ?_⟩
    rw [List.length_cons]
    omega
  · exact ⟨.lastParameter ht, fun hlt => hlt⟩

/-- One parameter and those behind it. -/
theorem parametersFrom_meets (n : Nat) : ∀ (c : Cursor) (count : Nat), c.rest.length < n →
    Meets (parametersFrom n count) last c fun used ps c' =>
      c'.errors = c.errors → Builds .parameters used ps ∧ count + ps.length ≤ maxArity := by
  induction n with
  | zero => intro c count hn; omega
  | succ n ih =>
    intro c count hn
    have htail := fun c hn => parametersTail_meets (c := c) hn fun c => ih c (count + 1)
    rw [parametersFrom]
    split
    · refine Meets.bindPeek (Meets.bindNote ?_)
      refine (htail _ (by simpa using hn)).mono fun used ps c' hadv hps hq => ?_
      exact absurd hq hadv.loud
    · refine (htail c hn).mono fun used ps c' hadv hps hq => ?_
      exact ⟨(hps hq).1, (hps hq).2 (by omega)⟩

theorem functionHead_meets (role : FunctionRole) (hn : c.rest.length < n) :
    Meets (functionHead n role) last c fun used head c' =>
      used ≠ [] ∧ (c'.errors = c.errors → BuildsHead used head.1 head.2) := by
  refine Meets.bindExpect fun name ts hrest hname => ?_
  refine Meets.bindExpect fun left ts' hrest' hleft => Meets.bindSees ?_
  have hlen := congrArg List.length hrest
  have hlen' := congrArg List.length hrest'
  simp only [List.length_cons] at hlen hlen'
  have hbuilds {u : List Token} {ps : List Token} {right first : Token}
      (hps : BuildsParameters u ps) (hright : right.kind = .rightParen)
      (hfirst : first.kind = .leftBrace) :
      BuildsHead (name :: left :: (u ++ [right, first])) name ps :=
    ⟨left, u, right, first, rfl, hname, hleft, hright, hfirst, hps⟩
  split
  · refine Meets.bindPure (Meets.bindExpect fun right _ _ hright => ?_)
    refine Meets.bindExpect fun first _ _ hfirst => Meets.pure ⟨by simp, fun _ => ?_⟩
    exact hbuilds (.inl ⟨rfl, rfl⟩) hright hfirst
  · refine Meets.bind (parametersFrom_meets n _ 0 (by simp only; omega)) fun u ps c₁ hadv hps => ?_
    refine Meets.bindExpect fun right _ _ hright => ?_
    refine Meets.bindExpect fun first _ _ hfirst => Meets.pure ⟨by simp, fun hq => ?_⟩
    exact hbuilds (.inr ⟨(hps hq).1, by simpa using (hps hq).2⟩) hright hfirst

end Simple

theorem forLoop_eq (initial : Option Stmt) (condition increment : Option Expr) (s : Stmt) :
    Stmt.forLoop initial condition increment s = withInitial
      (.loop (condition.getD (.constant (.bool true))) (withIncrement s increment)) initial := by
  cases initial <;> cases increment <;> rfl

/-- The increment is read before the body and stands behind it. -/
theorem ids_forLoop (initial : Option Stmt) (condition increment : Option Expr) (s : Stmt) :
    (Stmt.idsOption initial ++ Expr.idsOption condition ++ Expr.idsOption increment ++ s.ids).Perm
      (Stmt.forLoop initial condition increment s).ids := by
  have hloop : (Expr.idsOption condition ++ Expr.idsOption increment ++ s.ids).Perm
      (Stmt.loop (condition.getD (.constant (.bool true))) (withIncrement s increment)).ids := by
    have hcondition : (condition.getD (.constant (.bool true))).ids = Expr.idsOption condition := by
      cases condition <;> rfl
    rw [Stmt.ids, hcondition, List.append_assoc]
    refine List.Perm.append_left _ ?_
    cases increment with
    | none => simp [withIncrement, Expr.idsOption]
    | some e =>
      simpa [withIncrement, Stmt.ids, Stmt.idsAll, Expr.idsOption] using List.perm_append_comm
  rw [forLoop_eq]
  cases initial with
  | none => simpa [withInitial, Stmt.idsOption] using hloop
  | some first =>
    simpa [withInitial, Stmt.idsOption, Stmt.ids, Stmt.idsAll] using hloop.append_left first.ids

/-- What the reader of a statement list yields. -/
structure YieldsAll (inBlock : Bool) (c : Cursor) (used : List Token) (ss : List Stmt)
    (c' : Cursor) : Prop where
  numbered : Numbered c.nextId (Stmt.idsAll ss) c'.nextId
  builds : c'.errors = c.errors → Builds .declarations used ss
  atEnd : inBlock = false → c'.rest = []

/-- All readers of statements with a depth meet their promises. -/
structure StatementReaders (n : Nat) : Prop where
  statements : ∀ last c inBlock, 16 * c.rest.length + 13 ≤ n →
    Meets (statements n inBlock) last c (YieldsAll inBlock c)
  declaration : ∀ last c, 16 * c.rest.length + 12 ≤ n →
    Meets (declaration n) last c fun used s c' => Yields .declaration s.ids c used s c'
  classStmt : ∀ last c keyword, keyword.kind = .classWord → 16 * c.rest.length + 1 ≤ n →
    Meets (classStmt n) last c fun used s c' => Yields .declaration s.ids c (keyword :: used) s c'
  methods : ∀ last c, 16 * c.rest.length + 3 ≤ n →
    Meets (methods n) last c fun used ds c' =>
      Numbered c.nextId (FunctionDecl.idsAll ds) c'.nextId ∧
        (c'.errors = c.errors → Builds .methods used ds)
  function : ∀ last c role, 16 * c.rest.length + 2 ≤ n →
    Meets (function n role) last c fun used d c' => Yields .function d.ids c used d c'
  block : ∀ last c, 16 * c.rest.length + 14 ≤ n → Meets (block n) last c (YieldsBlock c)
  statement : ∀ last c, 16 * c.rest.length + 11 ≤ n →
    Meets (statement n) last c (YieldsStmt c)

section Step

variable {n : Nat} {last : Token} {c : Cursor} (ih : StatementReaders n)

include ih

theorem statements_meets (inBlock : Bool) (hn : 16 * c.rest.length + 13 ≤ n + 1) :
    Meets (statements (n + 1) inBlock) last c (YieldsAll inBlock c) := by
  rw [statements]
  refine Meets.bindAtEnd (Meets.bindSees ?_)
  split
  next hstop =>
    refine Meets.pure ⟨.nil, fun _ => .noDeclaration, ?_⟩
    rintro rfl
    simpa using hstop
  next hgo =>
    have hne : c.rest ≠ [] := by
      intro hnil
      simp [hnil] at hgo
    refine Meets.bind (P := fun used first c' => used ≠ [] ∧
      Numbered c.nextId (Stmt.idsAll first.toList) c'.nextId ∧
        (c'.errors = c.errors → ∃ s, first = some s ∧ Builds .declaration used s)) ?_ ?_
    · refine Meets.recovering ((ih.declaration last c (by omega)).mono fun used s c' _ hs => ?_) ?_
      · exact ⟨hs.progress, by simpa [Stmt.idsAll] using hs.numbered,
          fun hq => ⟨s, rfl, hs.builds hq⟩⟩
      · intro used c' _ hloud hprogress
        exact ⟨hprogress hne, .nil, fun hq => absurd hq hloud⟩
    · rintro u first c₁ hadv ⟨hprogress, hnumbered, hfirst⟩
      have hlen := hadv.length
      have hpos := List.length_pos_iff.2 hprogress
      refine Meets.bind (ih.statements last c₁ inBlock (by omega)) fun v ss c₂ hadv' hss => ?_
      refine Meets.pure ⟨?_, fun hq => ?_, hss.atEnd⟩
      · rw [Stmt.idsAll_append]
        exact hnumbered.append hss.numbered hadv.nextId hadv'.nextId
      · obtain ⟨hq₁, hq₂⟩ := hadv.quiet hadv' hq
        obtain ⟨s, rfl, hs⟩ := hfirst hq₁
        rw [List.append_nil]
        exact .declarations hs (hss.builds hq₂)

theorem declaration_meets (hn : 16 * c.rest.length + 12 ≤ n + 1) :
    Meets (declaration (n + 1)) last c fun used s c' => Yields .declaration s.ids c used s c' := by
  rw [declaration]
  refine Meets.bindAcceptAny (fun t ts hrest ht => ?_) fun _ => ?_
  · have hlen := congrArg List.length hrest
    rw [List.length_cons] at hlen
    simp only [List.mem_cons, List.not_mem_nil, or_false] at ht
    rcases ht with h | h | h <;> simp only [h]
    · refine (ih.classStmt last _ t h (by simp only; omega)).mono fun used s c' _ hs => ?_
      exact ⟨hs.progress, hs.numbered, hs.builds⟩
    · refine Meets.bind (ih.function last _ .function (by simp only; omega))
        fun u d c₁ hadv hd => Meets.pure ?_
      rw [List.append_nil]
      exact ⟨by simp, hd.numbered, fun hq => .funDecl h (hd.builds hq)⟩
    · refine (varStmt_meets h (by simp only; omega)).mono fun used s c' _ hs => ?_
      exact ⟨hs.progress, hs.numbered, fun hq => .variableDecl (hs.builds hq)⟩
  · refine (ih.statement last c (by omega)).mono fun used s c' _ hs => ?_
    refine ⟨hs.progress, hs.numbered, ?_⟩
    intro hq
    obtain ⟨o, hbuilds, _⟩ := hs.builds hq
    exact .statement hbuilds

/-- What is left of a class declaration behind the brace that opens it. -/
theorem classBody_meets {name : Token} {superclass : Option Reference} {c₀ : Cursor}
    (head : List Token) (hids : Numbered c₀.nextId (superclass.map Reference.id).toList c.nextId)
    (hle : c₀.nextId ≤ c.nextId) (herrors : c.errors = c₀.errors) (hne : head ≠ [])
    (hbuilds : ∀ {left right : Token} {w : List Token} {ds : List FunctionDecl},
      left.kind = .leftBrace → Builds .methods w ds → right.kind = .rightBrace →
        Builds .declaration (head ++ left :: (w ++ [right])) (.cls name superclass ds))
    (hn : 16 * c.rest.length + 3 ≤ n) :
    Meets (do
        let _ ← expect .leftBrace .classBodyStart
        let methods ← methods n
        let _ ← expect .rightBrace .classBodyEnd
        return .cls name superclass methods) last c fun used s c' =>
      Yields .declaration s.ids c₀ (head ++ used) s c' := by
  refine Meets.bindExpect fun left ts hrest hleft => ?_
  have hlen := congrArg List.length hrest
  rw [List.length_cons] at hlen
  refine Meets.bind (ih.methods last _ (by simp only; omega)) ?_
  rintro w ds c₁ hadv ⟨hnumbered, hds⟩
  refine Meets.bindExpect fun right _ _ hright => Meets.pure ⟨by simp [hne], ?_, fun hq => ?_⟩
  · have hall := hids.append hnumbered hle hadv.nextId
    cases superclass <;> simpa [Stmt.ids] using hall
  · exact hbuilds hleft (hds (hq.trans herrors.symm)) hright

theorem classStmt_meets {keyword : Token} (hkeyword : keyword.kind = .classWord)
    (hn : 16 * c.rest.length + 1 ≤ n + 1) :
    Meets (classStmt (n + 1)) last c fun used s c' =>
      Yields .declaration s.ids c (keyword :: used) s c' := by
  rw [classStmt]
  refine Meets.bindExpect fun name ts hrest hname => ?_
  have hlen := congrArg List.length hrest
  rw [List.length_cons] at hlen
  refine Meets.bindAccept (fun less ts' hrest' hless => ?_) fun _ => Meets.bindPure ?_
  · refine Meets.bindExpect fun superclass ts'' hrest'' hsuperclass => Meets.bindFreshId ?_
    have hlen' := congrArg List.length hrest'
    have hlen'' := congrArg List.length hrest''
    simp only [List.length_cons] at hlen' hlen''
    refine Meets.bindPure (classBody_meets ih [keyword, name, less, superclass]
      (.single _) (Nat.le_succ _) rfl (by simp) ?_ (by simp only; omega))
    intro left right w ds hleft hw hright
    exact .subclassDecl _ hkeyword hname hless hsuperclass hleft hw hright
  · refine classBody_meets ih [keyword, name] .nil (Nat.le_refl _) rfl (by simp) ?_
      (by simp only; omega)
    intro left right w ds hleft hw hright
    exact .classDecl hkeyword hname hleft hw hright

theorem methods_meets (hn : 16 * c.rest.length + 3 ≤ n + 1) :
    Meets (methods (n + 1)) last c fun used ds c' =>
      Numbered c.nextId (FunctionDecl.idsAll ds) c'.nextId ∧
        (c'.errors = c.errors → Builds .methods used ds) := by
  rw [methods]
  refine Meets.bindAtEnd (Meets.bindSees ?_)
  split
  · exact Meets.pure ⟨.nil, fun _ => .noMethod⟩
  · refine Meets.bind (ih.function last c .method (by omega)) fun u d c₁ hadv hd => ?_
    have hlen := hadv.length
    have hpos := List.length_pos_iff.2 hd.progress
    refine Meets.bind (ih.methods last c₁ (by omega)) ?_
    rintro v ds c₂ hadv' ⟨hnumbered, hds⟩
    refine Meets.pure ⟨hd.numbered.append hnumbered hadv.nextId hadv'.nextId, fun hq => ?_⟩
    obtain ⟨hq₁, hq₂⟩ := hadv.quiet hadv' hq
    rw [List.append_nil]
    exact .methods (hd.builds hq₁) (hds hq₂)

theorem block_meets (hn : 16 * c.rest.length + 14 ≤ n + 1) :
    Meets (block (n + 1)) last c (YieldsBlock c) := by
  rw [block]
  refine Meets.bind (ih.statements last c true (by omega)) fun w body c₁ hadv hbody => ?_
  refine Meets.bindExpect fun right _ _ hright => Meets.pure ?_
  exact ⟨by simp, hbody.numbered, fun hq => ⟨w, right, rfl, hright, hbody.builds hq⟩⟩

theorem function_meets (role : FunctionRole) (hn : 16 * c.rest.length + 2 ≤ n + 1) :
    Meets (function (n + 1) role) last c fun used d c' => Yields .function d.ids c used d c' := by
  rw [function]
  refine Meets.bind (functionHead_meets role (by omega)) ?_
  rintro u ⟨name, parameters⟩ c₁ hadv ⟨hne, hhead⟩
  have hlen := hadv.length
  have hpos := List.length_pos_iff.2 hne
  refine Meets.bind (ih.block last c₁ (by omega)) fun v body c₂ hadv' hbody => Meets.pure ?_
  refine ⟨by simp [hne], ?_, fun hq => ?_⟩
  · exact hbody.numbered.mono hadv.nextId (Nat.le_refl _)
  · obtain ⟨hq₁, hq₂⟩ := hadv.quiet hadv' hq
    obtain ⟨left, ps, right, first, rfl, hname, hleft, hright, hfirst, hps⟩ := hhead hq₁
    obtain ⟨w, close, rfl, hclose, hw⟩ := hbody.builds hq₂
    rcases hps with ⟨rfl, rfl⟩ | ⟨hps, hmax⟩
    · have hbuilds := Builds.plainFunction hname hleft hright hfirst hw hclose
      simpa using hbuilds
    · have hbuilds := Builds.function hname hleft hps hmax hright hfirst hw hclose
      simpa using hbuilds

/-- What is left of an `if` behind its condition. -/
theorem branches_meets {keyword left right : Token} {u head : List Token} {condition : Expr}
    {c₀ : Cursor} (hadv : Advances c₀ head c) (hkeyword : keyword.kind = .ifWord)
    (hleft : left.kind = .leftParen) (hright : right.kind = .rightParen)
    (hnumbered : Numbered c₀.nextId condition.ids c.nextId)
    (hcondition : c.errors = c₀.errors → Builds .expression u condition)
    (hn : 16 * c.rest.length + 11 ≤ n) :
    Meets (do
        let positive ← statement n
        let negative ←
          match ← accept .elseWord with
          | none => pure none
          | some _ => some <$> statement n
        return .branch condition positive negative) last c fun used s c' =>
      YieldsStmt c₀ (keyword :: left :: (u ++ right :: used)) s c' := by
  refine Meets.bind (ih.statement last c hn) fun v s c₁ hadv₁ hs => ?_
  have hlen := hadv₁.length
  have hpositive := hnumbered.append hs.numbered hadv.nextId hadv₁.nextId
  refine Meets.bindAccept (fun otherwise ts hrest hotherwise => ?_) fun hstops => ?_
  · have hlen' := congrArg List.length hrest
    rw [List.length_cons] at hlen'
    refine Meets.bindMap (ih.statement last _ (by simp only; omega)) fun w t c₂ hadv₂ ht => ?_
    have hids := hpositive.append ht.numbered (Nat.le_trans hadv.nextId hadv₁.nextId) hadv₂.nextId
    refine Meets.pure ⟨by simp, hids, fun hq => ?_⟩
    obtain ⟨hq₁, hq⟩ := hadv.quiet (hadv₁.trans (hadv₂.skip hrest)) hq
    obtain ⟨hq₂, hq₃⟩ := hadv₁.quiet (hadv₂.skip hrest) hq
    obtain ⟨o, hv, hopen⟩ := hs.builds hq₂
    obtain ⟨o', hw, hopen'⟩ := ht.builds hq₃
    -- an `else` was read, so the statement before it is not open
    cases o with
    | true => exact absurd hotherwise (hopen rfl _ _ hrest)
    | false =>
      rw [List.append_nil]
      exact ⟨o', .ifElse hkeyword hleft (hcondition hq₁) hright hv hotherwise hw, hopen'⟩
  · refine Meets.bindPure (Meets.pure ⟨by simp, hpositive, fun hq => ?_⟩)
    obtain ⟨hq₁, hq₂⟩ := hadv.quiet hadv₁ hq
    obtain ⟨o, hv, _⟩ := hs.builds hq₂
    rw [List.append_nil]
    exact ⟨true, .ifThen hkeyword hleft (hcondition hq₁) hright hv, fun _ => hstops⟩

/-- A counting loop behind its keyword. -/
theorem forLoop_meets {keyword : Token} (hkeyword : keyword.kind = .forWord)
    (hn : 16 * c.rest.length + 11 ≤ n) :
    Meets (do
        let _ ← expect .leftParen .forStart
        let initial ← forInitial n
        let condition ← expressionUnless n .semicolon
        let _ ← expect .semicolon .forConditionEnd
        let increment ← expressionUnless n .rightParen
        let _ ← expect .rightParen .forEnd
        return .forLoop initial condition increment (← statement n)) last c fun used s c' =>
      YieldsStmt c (keyword :: used) s c' := by
  refine Meets.bindExpect fun left ts hrest hleft => ?_
  have hlen := congrArg List.length hrest
  rw [List.length_cons] at hlen
  refine Meets.bind (forInitial_meets (by simp only; omega)) fun u initial c₁ hadv₁ hinitial => ?_
  have hlen₁ := hadv₁.length
  simp only at hlen₁
  refine Meets.bind (expressionUnless_meets .semicolon (by omega))
    fun v condition c₂ hadv₂ hcond => ?_
  have hlen₂ := hadv₂.length
  refine Meets.bindExpect fun semicolon ts₂ hrest₂ hsemicolon => ?_
  have hlen₂' := congrArg List.length hrest₂
  rw [List.length_cons] at hlen₂'
  refine Meets.bind (expressionUnless_meets .rightParen (by simp only; omega))
    fun w increment c₃ hadv₃ hincrement => ?_
  have hlen₃ := hadv₃.length
  simp only at hlen₃
  refine Meets.bindExpect fun right ts₃ hrest₃ hright => ?_
  have hlen₃' := congrArg List.length hrest₃
  rw [List.length_cons] at hlen₃'
  refine Meets.bind (ih.statement last _ (by simp only; omega)) fun x s c₄ hadv₄ hs => ?_
  refine Meets.pure ⟨by simp, ?_, fun hq => ?_⟩
  · have hids := ((hinitial.numbered.append hcond.numbered hadv₁.nextId hadv₂.nextId).append
      hincrement.numbered (Nat.le_trans hadv₁.nextId hadv₂.nextId) hadv₃.nextId).append
      hs.numbered (Nat.le_trans (Nat.le_trans hadv₁.nextId hadv₂.nextId) hadv₃.nextId) hadv₄.nextId
    exact hids.perm (ids_forLoop initial condition increment s)
  · obtain ⟨hq₁, hq⟩ :=
      hadv₁.quiet (hadv₂.trans ((hadv₃.trans (hadv₄.skip hrest₃)).skip hrest₂)) hq
    obtain ⟨hq₂, hq⟩ := hadv₂.quiet ((hadv₃.trans (hadv₄.skip hrest₃)).skip hrest₂) hq
    obtain ⟨hq₃, hq₄⟩ := hadv₃.quiet (hadv₄.skip hrest₃) hq
    obtain ⟨o, hx, hstops⟩ := hs.builds hq₄
    have hbuilds := Builds.forLoop hkeyword hleft (hinitial.builds hq₁) (hcond.builds hq₂)
      hsemicolon (hincrement.builds hq₃) hright hx
    rw [← forLoop_eq] at hbuilds
    exact ⟨o, by simpa using hbuilds, hstops⟩

theorem statement_meets (hn : 16 * c.rest.length + 11 ≤ n + 1) :
    Meets (statement (n + 1)) last c (YieldsStmt c) := by
  rw [statement]
  refine Meets.bindAcceptAny (fun t ts hrest ht => ?_) fun _ => ?_
  · have hlen := congrArg List.length hrest
    rw [List.length_cons] at hlen
    simp only [List.mem_cons, List.not_mem_nil, or_false] at ht
    rcases ht with h | h | h | h | h | h <;> simp only [h]
    · refine (forLoop_meets ih h (by simp only; omega)).mono fun used s c' _ hs => ?_
      exact ⟨hs.progress, hs.numbered, hs.builds⟩
    · refine bindCondition (by simp only; omega) ?_
      intro left u right e c₁ hleft hright hadv hnumbered he
      have hlen₁ := hadv.length
      simp only at hlen₁
      refine (branches_meets ih hadv h hleft hright hnumbered he (by omega)).mono ?_
      intro used s c' _ hs
      exact ⟨hs.progress, hs.numbered, hs.builds⟩
    · refine bindCondition (by simp only; omega) ?_
      intro left u right e c₁ hleft hright hadv hnumbered he
      have hlen₁ := hadv.length
      simp only at hlen₁
      refine Meets.bind (ih.statement last c₁ (by omega)) fun v s c₂ hadv' hs => ?_
      refine Meets.pure ⟨by simp, hnumbered.append hs.numbered hadv.nextId hadv'.nextId, ?_⟩
      intro hq
      obtain ⟨hq₁, hq₂⟩ := hadv.quiet hadv' hq
      obtain ⟨o, hbuilds, hstops⟩ := hs.builds hq₂
      rw [List.append_nil]
      exact ⟨o, .loop h hleft (he hq₁) hright hbuilds, hstops⟩
    · refine (returnStmt_meets h (by simp only; omega)).mono fun used s c' _ hs => ?_
      exact ⟨hs.progress, hs.numbered, hs.builds⟩
    · refine Meets.bind (ih.block last _ (by simp only; omega)) fun u body c₁ hadv hbody => ?_
      refine Meets.pure ⟨by simp, hbody.numbered, fun hq => ⟨false, ?_, by simp⟩⟩
      obtain ⟨w, right, rfl, hright, hw⟩ := hbody.builds hq
      rw [List.append_nil]
      exact .block h hw hright
    · refine (printStmt_meets h (by simp only; omega)).mono fun used s c' _ hs => ?_
      exact ⟨hs.progress, hs.numbered, hs.builds⟩
  · refine (exprStmt_meets (by omega)).mono fun used s c' _ hs => ?_
    exact ⟨hs.progress, hs.numbered, fun hq => ⟨false, .expression (hs.builds hq), by simp⟩⟩

end Step

/-- The readers of statements meet their promises at every depth. -/
theorem statementReaders (n : Nat) : StatementReaders n := by
  induction n with
  | zero =>
    constructor <;> intros <;> omega
  | succ n ih =>
    exact
      { statements := fun _ _ => statements_meets ih
        declaration := fun _ _ => declaration_meets ih
        classStmt := fun _ _ _ => classStmt_meets ih
        methods := fun _ _ => methods_meets ih
        function := fun _ _ => function_meets ih
        block := fun _ _ => block_meets ih
        statement := fun _ _ => statement_meets ih }

end ClassScript.Read
