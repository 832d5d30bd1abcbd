import ClassScript.Proofs.Reading.TakenExpression

/-! # Readers take all statements

The same for statements and declarations, and with it for phrases of every kind.
-/
namespace ClassScript.Read

open Grammar Rules

section Statements

variable {w u v : List Token} {e : Expr} {s : Stmt}

/-- An expression with its semicolon makes a statement. -/
theorem accepts_terminated {semicolon : Token} {n : Nat} {rest : List Token} {f : Expr → Stmt}
    {cause : GrammarCause} (h : Taken .expression w e) (hsemicolon : semicolon.kind = .semicolon)
    (hf : ∀ e' : Expr, e'.erase = e.erase → (f e').erase = (f e).erase)
    (hn : 16 * (w.length + 1 + rest.length) + 10 ≤ n) :
    Accepts (do
      let e ← expression n
      let _ ← expect .semicolon cause
      return f e) (w ++ [semicolon]) rest fun s' => s'.erase = (f e).erase := by
  refine Leads.bind (h n ([semicolon] ++ rest) ?_ ?_) fun e' he => ?_
  · simp only [List.length_append, List.length_cons, List.length_nil]
    omega
  · exact stopped_cons.2 (by rw [hsemicolon]; decide)
  · exact Leads.bindExpect hsemicolon (Accepts.pure (hf e' he))

theorem taken_exprStmt {semicolon : Token} (h : Taken .expression w e)
    (hsemicolon : semicolon.kind = .semicolon) :
    Taken .exprStmt (w ++ [semicolon]) (.expression e) := by
  intro n rest hn
  simp only [List.length_append, List.length_cons, List.length_nil] at hn
  exact accepts_terminated h hsemicolon (fun e' he => by simp only [Stmt.erase, he]) (by omega)

theorem taken_plainVariable {keyword name semicolon : Token} (hkeyword : keyword.kind = .varWord)
    (hname : name.kind = .identifier) (hsemicolon : semicolon.kind = .semicolon) :
    Taken .varDecl [keyword, name, semicolon] (.var name none) := by
  intro n rest hn
  refine ⟨keyword, [name, semicolon], rfl, hkeyword, Leads.bindExpect hname ?_⟩
  refine Leads.bindSkip (stopped_cons.2 (by rw [hsemicolon]; decide)) ?_
  exact Leads.bindExpect hsemicolon (Accepts.pure rfl)

theorem taken_initialized {keyword name equals semicolon : Token}
    (hkeyword : keyword.kind = .varWord) (hname : name.kind = .identifier)
    (hequals : equals.kind = .equal) (h : Taken .expression w e)
    (hsemicolon : semicolon.kind = .semicolon) :
    Taken .varDecl (keyword :: name :: equals :: (w ++ [semicolon])) (.var name (some e)) := by
  intro n rest hn
  simp only [List.length_append, List.length_cons, List.length_nil] at hn
  refine ⟨keyword, _, rfl, hkeyword, Leads.bindExpect hname (Leads.bindTake hequals ?_)⟩
  refine Leads.bindMap (h n ([semicolon] ++ rest) ?_ ?_) fun e' he => ?_
  · simp only [List.length_append, List.length_cons, List.length_nil]
    omega
  · exact stopped_cons.2 (by rw [hsemicolon]; decide)
  · refine Leads.bindExpect hsemicolon (Accepts.pure ?_)
    simp only [Stmt.erase, Option.map_some, he]

theorem taken_noInitial {semicolon : Token} (h : semicolon.kind = .semicolon) :
    Taken .forInitial [semicolon] none := by
  intro n rest hn
  refine Leads.bindTakeAny (by simp [h]) ?_
  simp only [h, if_true]
  exact Accepts.pure rfl

theorem taken_variableInitial (h : Taken .varDecl w s) : Taken .forInitial w (some s) := by
  intro n rest hn
  obtain ⟨keyword, w, rfl, hkeyword, hread⟩ := h n rest (by omega)
  refine Leads.bindTakeAny (by simp [hkeyword]) ?_
  simp only [hkeyword, reduceCtorEq, if_false]
  exact Accepts.map hread fun s' hs => by simp [hs]

theorem taken_expressionInitial (h : Taken .exprStmt w s) (hfirst : Begins expressionFirst w) :
    Taken .forInitial w (some s) := by
  intro n rest hn
  refine Leads.bindSkipAny (stopped_of_begins (hfirst.append _) (by decide)) ?_
  exact Accepts.map (h n rest hn) fun s' hs => by simp [hs]

theorem taken_lastParameter {t : Token} (h : t.kind = .identifier) :
    Taken .parameters [t] [t] := by
  intro n count rest hn hmax hstop
  simp only [List.length_cons, List.length_nil] at hn hmax
  obtain ⟨n, rfl⟩ : ∃ m, n = m + 1 := ⟨n - 1, by omega⟩
  have hcount : ¬maxArity ≤ count := by omega
  rw [parametersFrom]
  simp only [hcount, if_false]
  exact Leads.bindExpect h (Leads.bindSkip hstop (Accepts.pure rfl))

theorem taken_parameter {t comma : Token} {ps : List Token} (h : t.kind = .identifier)
    (hcomma : comma.kind = .comma) (hw : Taken .parameters w ps) :
    Taken .parameters (t :: comma :: w) (t :: ps) := by
  intro n count rest hn hmax hstop
  simp only [List.length_cons] at hn hmax
  obtain ⟨n, rfl⟩ : ∃ m, n = m + 1 := ⟨n - 1, by omega⟩
  have hcount : ¬maxArity ≤ count := by omega
  rw [parametersFrom]
  simp only [hcount, if_false]
  refine Leads.bindExpect h (Leads.bindTake hcomma ?_)
  exact Accepts.wrap (hw n (count + 1) rest (by omega) (by omega) hstop) fun ps' hps => by rw [hps]

theorem taken_noDeclaration : Taken .declarations [] [] := by
  intro n rest inBlock hn hrest
  obtain ⟨n, rfl⟩ : ∃ m, n = m + 1 := ⟨n - 1, by omega⟩
  rw [statements]
  refine Leads.bindAtEnd (Leads.bindSees ?_)
  have hstop : (([] ++ rest).isEmpty ||
      inBlock && (([] ++ rest).head?.map Token.kind == some .rightBrace)) = true := by
    rcases hrest with ⟨rfl, rfl⟩ | ⟨rfl, t, ts, rfl, ht⟩
    · rfl
    · simpa using ht
  rw [hstop]
  exact Accepts.pure rfl

theorem taken_declarations {ss : List Stmt} (hu : Taken .declaration u s)
    (hfirst : Begins declarationFirst u) (hv : Taken .declarations v ss)
    (hfirst' : v = [] ∨ Begins declarationFirst v) : Taken .declarations (u ++ v) (s :: ss) := by
  intro n rest inBlock hn hrest
  rw [List.length_append] at hn
  obtain ⟨n, rfl⟩ : ∃ m, n = m + 1 := ⟨n - 1, by omega⟩
  rw [statements]
  refine Leads.bindAtEnd (Leads.bindSees ?_)
  rw [not_sees ((hfirst.append v).append rest) (by decide)]
  have hpos := List.length_pos_iff.2 hfirst.ne_nil
  have hempty := List.isEmpty_eq_false_iff.2 ((hfirst.append v).append rest).ne_nil
  have helse : Stopped [.elseWord] (v ++ rest) := by
    rcases hfirst' with rfl | hfirst'
    · rcases hrest with ⟨_, rfl⟩ | ⟨_, hrest⟩
      · exact stopped_nil _
      · exact stopped_of_begins hrest (by decide)
    · exact stopped_of_begins (hfirst'.append _) (by decide)
  rw [hempty, Bool.and_false, Bool.or_false]
  refine Leads.bind (Accepts.recovering (P := fun first => first.map Stmt.erase = some s.erase)
    ((hu n (v ++ rest) ?_ helse).mono fun s' hs => by simp [hs])) fun first hs => ?_
  · rw [List.length_append]
    omega
  · refine Accepts.wrap (hv n rest inBlock (by omega) hrest) fun ss' hss => ?_
    obtain ⟨s', rfl, hs'⟩ := Option.map_eq_some_iff.1 hs
    simp only [Option.toList, List.cons_append, List.nil_append, Stmt.eraseAll, hs', hss]

theorem accepts_block {right : Token} {rest : List Token} {body : List Stmt} {n : Nat}
    (h : Taken .declarations w body) (hright : right.kind = .rightBrace)
    (hn : 16 * (w.length + 1 + rest.length) + 14 ≤ n) :
    Accepts (block n) (w ++ [right]) rest fun body' =>
      Stmt.eraseAll body' = Stmt.eraseAll body := by
  obtain ⟨n, rfl⟩ : ∃ m, n = m + 1 := ⟨n - 1, by omega⟩
  rw [block]
  refine Leads.bind (h n ([right] ++ rest) true ?_ (.inr ⟨rfl, ?_⟩)) fun body' hbody => ?_
  · simp only [List.length_append, List.length_cons, List.length_nil]
    omega
  · exact ⟨right, rest, rfl, by simp [hright]⟩
  · exact Leads.bindExpect hright (Accepts.pure hbody)

theorem accepts_functionHead {name left right first : Token} {ps rest : List Token} {n : Nat}
    {role : FunctionRole} (hname : name.kind = .identifier) (hleft : left.kind = .leftParen)
    (hu : u = [] ∧ ps = [] ∨
      Taken .parameters u ps ∧ Begins [.identifier] u ∧ ps.length ≤ maxArity)
    (hright : right.kind = .rightParen) (hfirst : first.kind = .leftBrace)
    (hn : u.length + rest.length + 4 < n) :
    Accepts (functionHead n role) (name :: left :: (u ++ [right, first])) rest fun head =>
      head = (name, ps) := by
  refine Leads.bindExpect hname (Leads.bindExpect hleft (Leads.bindSees ?_))
  rcases hu with ⟨rfl, rfl⟩ | ⟨hu, hbegins, hmax⟩
  · have hsees :
        (([] ++ [right, first] ++ rest).head?.map Token.kind == some .rightParen) = true := by
      simp [hright]
    rw [hsees]
    exact Leads.bindExpect hright (Leads.bindExpect hfirst (Accepts.pure rfl))
  · rw [not_sees ((hbegins.append _).append _) (by decide)]
    refine Leads.bind (hu n 0 ([right, first] ++ rest) ?_ (by omega) ?_) fun ps' hps => ?_
    · simp only [List.length_append, List.length_cons, List.length_nil]
      omega
    · exact stopped_cons.2 (by rw [hright]; decide)
    · subst hps
      exact Leads.bindExpect hright (Leads.bindExpect hfirst (Accepts.pure rfl))

theorem taken_function {name left right first last : Token} {ps : List Token} {body : List Stmt}
    (hname : name.kind = .identifier) (hleft : left.kind = .leftParen)
    (hu : u = [] ∧ ps = [] ∨
      Taken .parameters u ps ∧ Begins [.identifier] u ∧ ps.length ≤ maxArity)
    (hright : right.kind = .rightParen) (hfirst : first.kind = .leftBrace)
    (h : Taken .declarations w body) (hlast : last.kind = .rightBrace) :
    Taken .function (name :: left :: (u ++ right :: first :: (w ++ [last])))
      (.mk name ps body) := by
  intro n role rest hn
  simp only [List.length_append, List.length_cons, List.length_nil] at hn
  obtain ⟨n, rfl⟩ : ∃ m, n = m + 1 := ⟨n - 1, by omega⟩
  rw [function]
  have hwords : name :: left :: (u ++ right :: first :: (w ++ [last])) =
      name :: left :: (u ++ [right, first]) ++ (w ++ [last]) := by simp
  rw [hwords]
  refine Leads.bind (accepts_functionHead hname hleft hu hright hfirst ?_) ?_
  · simp only [List.length_append, List.length_cons, List.length_nil]
    omega
  · rintro _ rfl
    refine Accepts.wrap (accepts_block h hlast (by omega)) fun body' hbody => ?_
    simp only [FunctionDecl.erase, hbody]

theorem taken_noMethod : Taken .methods [] [] := by
  intro n rest hn hrest
  obtain ⟨n, rfl⟩ : ∃ m, n = m + 1 := ⟨n - 1, by omega⟩
  obtain ⟨t, ts, rfl, ht⟩ := hrest
  rw [methods]
  refine Leads.bindAtEnd (Leads.bindSees ?_)
  have hstop : (([] ++ t :: ts).isEmpty ||
      (([] ++ t :: ts).head?.map Token.kind == some .rightBrace)) = true := by
    simpa using ht
  rw [hstop]
  exact Accepts.pure rfl

theorem taken_methods {d : FunctionDecl} {ds : List FunctionDecl} (hu : Taken .function u d)
    (hfirst : Begins [.identifier] u) (hv : Taken .methods v ds) :
    Taken .methods (u ++ v) (d :: ds) := by
  intro n rest hn hrest
  rw [List.length_append] at hn
  obtain ⟨n, rfl⟩ : ∃ m, n = m + 1 := ⟨n - 1, by omega⟩
  have hpos := List.length_pos_iff.2 hfirst.ne_nil
  have hempty := List.isEmpty_eq_false_iff.2 ((hfirst.append v).append rest).ne_nil
  rw [methods]
  refine Leads.bindAtEnd (Leads.bindSees ?_)
  rw [not_sees ((hfirst.append v).append rest) (by decide), hempty]
  refine Leads.bind (hu n .method (v ++ rest) ?_) fun d' hd => ?_
  · rw [List.length_append]
    omega
  · refine Accepts.wrap (hv n rest (by omega) hrest) fun ds' hds => ?_
    simp only [FunctionDecl.eraseAll, hd, hds]

/-- What is left of a class declaration from the brace that opens it. -/
theorem accepts_classBody {left right name : Token} {superclass superclass' : Option Reference}
    {ds : List FunctionDecl} {n : Nat} {rest : List Token} (hleft : left.kind = .leftBrace)
    (h : Taken .methods w ds) (hright : right.kind = .rightBrace)
    (hsuperclass : superclass'.map Reference.erase = superclass.map Reference.erase)
    (hn : 16 * (w.length + rest.length + 1) + 3 ≤ n) :
    Accepts (do
        let _ ← expect .leftBrace .classBodyStart
        let methods ← methods n
        let _ ← expect .rightBrace .classBodyEnd
        return Stmt.cls name superclass' methods) (left :: (w ++ [right])) rest fun s' : Stmt =>
      s'.erase = (Stmt.cls name superclass ds).erase := by
  refine Leads.bindExpect hleft ?_
  refine Leads.bind (h n ([right] ++ rest) ?_ ⟨right, rest, rfl, by simp [hright]⟩)
    fun ds' hds => ?_
  · simp only [List.length_append, List.length_cons, List.length_nil]
    omega
  · refine Leads.bindExpect hright (Accepts.pure ?_)
    simp only [Stmt.erase, hsuperclass, hds]

theorem taken_classDecl {keyword name left right : Token} {ds : List FunctionDecl}
    (hkeyword : keyword.kind = .classWord) (hname : name.kind = .identifier)
    (hleft : left.kind = .leftBrace) (h : Taken .methods w ds) (hright : right.kind = .rightBrace) :
    Taken .declaration (keyword :: name :: left :: (w ++ [right])) (.cls name none ds) := by
  intro n rest hn _
  simp only [List.length_append, List.length_cons, List.length_nil] at hn
  obtain ⟨n, rfl⟩ : ∃ m, n = m + 2 := ⟨n - 2, by omega⟩
  rw [declaration]
  refine Leads.bindTakeAny (by simp [hkeyword]) ?_
  simp only [hkeyword, classStmt]
  refine Leads.bindExpect hname (Leads.bindSkip ?_ ?_)
  · exact stopped_cons.2 (by rw [hleft]; decide)
  · exact accepts_classBody hleft h hright rfl (by omega)

theorem taken_subclassDecl {keyword name less superclass left right : Token}
    {ds : List FunctionDecl} (id : Nat) (hkeyword : keyword.kind = .classWord)
    (hname : name.kind = .identifier) (hless : less.kind = .less)
    (hsuperclass : superclass.kind = .identifier) (hleft : left.kind = .leftBrace)
    (h : Taken .methods w ds) (hright : right.kind = .rightBrace) :
    Taken .declaration (keyword :: name :: less :: superclass :: left :: (w ++ [right]))
      (.cls name (some ⟨superclass, id⟩) ds) := by
  intro n rest hn _
  simp only [List.length_append, List.length_cons, List.length_nil] at hn
  obtain ⟨n, rfl⟩ : ∃ m, n = m + 2 := ⟨n - 2, by omega⟩
  rw [declaration]
  refine Leads.bindTakeAny (by simp [hkeyword]) ?_
  simp only [hkeyword, classStmt]
  refine Leads.bindExpect hname (Leads.bindTake hless (Leads.bindExpect hsuperclass ?_))
  exact Leads.bindFreshId fun _ => accepts_classBody hleft h hright rfl (by omega)

theorem taken_funDecl {keyword : Token} {d : FunctionDecl} (hkeyword : keyword.kind = .funWord)
    (h : Taken .function w d) : Taken .declaration (keyword :: w) (.function d) := by
  intro n rest hn _
  rw [List.length_cons] at hn
  obtain ⟨n, rfl⟩ : ∃ m, n = m + 1 := ⟨n - 1, by omega⟩
  rw [declaration]
  refine Leads.bindTakeAny (by simp [hkeyword]) ?_
  simp only [hkeyword]
  refine Accepts.wrap (h n .function rest (by omega)) fun d' hd => ?_
  simp only [Stmt.erase, hd]

theorem taken_variableDecl (h : Taken .varDecl w s) : Taken .declaration w s := by
  intro n rest hn _
  obtain ⟨n, rfl⟩ : ∃ m, n = m + 1 := ⟨n - 1, by omega⟩
  obtain ⟨keyword, w, rfl, hkeyword, hread⟩ := h n rest (by omega)
  rw [declaration]
  refine Leads.bindTakeAny (by simp [hkeyword]) ?_
  simp only [hkeyword]
  exact hread

theorem taken_statement {o : Bool} (h : Taken (.statement o) w s)
    (hfirst : Begins statementFirst w) : Taken .declaration w s := by
  intro n rest hn hstop
  obtain ⟨n, rfl⟩ : ∃ m, n = m + 1 := ⟨n - 1, by omega⟩
  rw [declaration]
  refine Leads.bindSkipAny (stopped_of_begins (hfirst.append _) (by decide)) ?_
  exact h n rest (by omega) fun _ => hstop

theorem taken_expressionStmt (h : Taken .exprStmt w s) (hfirst : Begins expressionFirst w) :
    Taken (.statement false) w s := by
  intro n rest hn _
  obtain ⟨n, rfl⟩ : ∃ m, n = m + 1 := ⟨n - 1, by omega⟩
  rw [statement]
  refine Leads.bindSkipAny (stopped_of_begins (hfirst.append _) (by decide)) ?_
  exact h n rest (by omega)

theorem taken_print {keyword semicolon : Token} (hkeyword : keyword.kind = .printWord)
    (h : Taken .expression w e) (hsemicolon : semicolon.kind = .semicolon) :
    Taken (.statement false) (keyword :: (w ++ [semicolon])) (.print e) := by
  intro n rest hn _
  simp only [List.length_append, List.length_cons, List.length_nil] at hn
  obtain ⟨n, rfl⟩ : ∃ m, n = m + 1 := ⟨n - 1, by omega⟩
  rw [statement]
  refine Leads.bindTakeAny (by simp [hkeyword]) ?_
  simp only [hkeyword]
  exact accepts_terminated h hsemicolon (fun e' he => by simp only [Stmt.erase, he]) (by omega)

theorem returnStmt_eq (n : Nat) (keyword : Token) :
    returnStmt (m := Read) n keyword = (do
      let value ← expressionUnless n .semicolon
      let _ ← expect .semicolon .returnEnd
      return .ret keyword value) := by
  funext last c
  simp only [returnStmt, expressionUnless, Bind.bind, Read.bind, TokenReader.sees, sees]
  by_cases h : ((c.rest.head?.map Token.kind) == some .semicolon) = true
  · simp only [h, if_true]
    rfl
  · simp only [h]
    rfl

theorem taken_ret {keyword semicolon : Token} {value : Option Expr}
    (hkeyword : keyword.kind = .returnWord) (h : Taken .optional w value)
    (hsemicolon : semicolon.kind = .semicolon) :
    Taken (.statement false) (keyword :: (w ++ [semicolon])) (.ret keyword value) := by
  intro n rest hn _
  simp only [List.length_append, List.length_cons, List.length_nil] at hn
  obtain ⟨n, rfl⟩ : ∃ m, n = m + 1 := ⟨n - 1, by omega⟩
  rw [statement]
  refine Leads.bindTakeAny (by simp [hkeyword]) ?_
  simp only [hkeyword]
  rw [returnStmt_eq]
  refine Leads.bind (h n .semicolon ([semicolon] ++ rest) ?_ (.inl rfl) ?_) fun value' hvalue => ?_
  · simp only [List.length_append, List.length_cons, List.length_nil]
    omega
  · exact ⟨semicolon, rest, rfl, by simp [hsemicolon]⟩
  · refine Leads.bindExpect hsemicolon (Accepts.pure ?_)
    simp only [Stmt.erase, hvalue]

theorem taken_block {left right : Token} {body : List Stmt} (hleft : left.kind = .leftBrace)
    (h : Taken .declarations w body) (hright : right.kind = .rightBrace) :
    Taken (.statement false) (left :: (w ++ [right])) (.block body) := by
  intro n rest hn _
  simp only [List.length_append, List.length_cons, List.length_nil] at hn
  obtain ⟨n, rfl⟩ : ∃ m, n = m + 1 := ⟨n - 1, by omega⟩
  rw [statement]
  refine Leads.bindTakeAny (by simp [hleft]) ?_
  simp only [hleft]
  refine Accepts.wrap (accepts_block h hright (by omega)) fun body' hbody => ?_
  simp only [Stmt.erase, hbody]

/-- An expression in parentheses, and what follows it. -/
theorem leads_condition {β : Type} {f : Expr → Read β} {goal : Goal β} {left right : Token}
    {rest : List Token} {start close : GrammarCause} {n : Nat} (hleft : left.kind = .leftParen)
    (hu : Taken .expression u e) (hright : right.kind = .rightParen)
    (hn : 16 * (u.length + v.length + rest.length + 1) + 10 ≤ n)
    (hf : ∀ e', e'.erase = e.erase → Leads (f e') v rest goal) :
    Leads (do
        let _ ← expect .leftParen start
        let e ← expression n
        let _ ← expect .rightParen close
        f e) (left :: (u ++ right :: v)) rest goal := by
  refine Leads.bindExpect hleft ?_
  refine Leads.bind (hu n (right :: v ++ rest) ?_ ?_) fun e' he => ?_
  · simp only [List.length_append, List.length_cons]
    omega
  · exact stopped_cons.2 (by rw [hright]; decide)
  · exact Leads.bindExpect hright (hf e' he)

theorem taken_ifThen {o : Bool} {keyword left right : Token} (hkeyword : keyword.kind = .ifWord)
    (hleft : left.kind = .leftParen) (hu : Taken .expression u e)
    (hright : right.kind = .rightParen) (hv : Taken (.statement o) v s) :
    Taken (.statement true) (keyword :: left :: (u ++ right :: v)) (.branch e s none) := by
  intro n rest hn hstop
  simp only [List.length_append, List.length_cons] at hn
  obtain ⟨n, rfl⟩ : ∃ m, n = m + 1 := ⟨n - 1, by omega⟩
  rw [statement]
  refine Leads.bindTakeAny (by simp [hkeyword]) ?_
  simp only [hkeyword]
  refine leads_condition hleft hu hright (by omega) fun e' he => ?_
  refine Leads.bindAll (hv n rest (by omega) fun _ => hstop rfl) fun s' hs => ?_
  refine Leads.bindSkip (hstop rfl) (Accepts.pure ?_)
  simp only [Stmt.erase, he, hs]

theorem taken_ifElse {o : Bool} {keyword left right otherwise : Token} {x : List Token} {t : Stmt}
    (hkeyword : keyword.kind = .ifWord) (hleft : left.kind = .leftParen)
    (hu : Taken .expression u e) (hright : right.kind = .rightParen)
    (hv : Taken (.statement false) v s) (hotherwise : otherwise.kind = .elseWord)
    (hx : Taken (.statement o) x t) :
    Taken (.statement o) (keyword :: left :: (u ++ right :: (v ++ otherwise :: x)))
      (.branch e s (some t)) := by
  intro n rest hn hstop
  simp only [List.length_append, List.length_cons] at hn
  obtain ⟨n, rfl⟩ : ∃ m, n = m + 1 := ⟨n - 1, by omega⟩
  rw [statement]
  refine Leads.bindTakeAny (by simp [hkeyword]) ?_
  simp only [hkeyword]
  refine leads_condition hleft hu hright ?_ fun e' he => ?_
  · simp only [List.length_append, List.length_cons]
    omega
  refine Leads.bind (hv n (otherwise :: x ++ rest) ?_ (by simp)) fun s' hs => ?_
  · simp only [List.length_append, List.length_cons]
    omega
  refine Leads.bindTake hotherwise ?_
  refine Accepts.wrap (P := fun negative => negative.map Stmt.erase = some t.erase)
    (Accepts.map (hx n rest (by omega) hstop) fun t' ht => by simp [ht]) fun negative hn => ?_
  obtain ⟨t', rfl, ht⟩ := Option.map_eq_some_iff.1 hn
  simp only [Stmt.erase, he, hs, ht]

theorem taken_loop {o : Bool} {keyword left right : Token} (hkeyword : keyword.kind = .whileWord)
    (hleft : left.kind = .leftParen) (hu : Taken .expression u e)
    (hright : right.kind = .rightParen) (hv : Taken (.statement o) v s) :
    Taken (.statement o) (keyword :: left :: (u ++ right :: v)) (.loop e s) := by
  intro n rest hn hstop
  simp only [List.length_append, List.length_cons] at hn
  obtain ⟨n, rfl⟩ : ∃ m, n = m + 1 := ⟨n - 1, by omega⟩
  rw [statement]
  refine Leads.bindTakeAny (by simp [hkeyword]) ?_
  simp only [hkeyword]
  refine leads_condition hleft hu hright (by omega) fun e' he => ?_
  refine Accepts.wrap (hv n rest (by omega) hstop) fun s' hs => ?_
  simp only [Stmt.erase, he, hs]

theorem erase_forLoop {initial initial' : Option Stmt} {condition condition' : Option Expr}
    {increment increment' : Option Expr} {s s' : Stmt}
    (hinitial : initial'.map Stmt.erase = initial.map Stmt.erase)
    (hcondition : condition'.map Expr.erase = condition.map Expr.erase)
    (hincrement : increment'.map Expr.erase = increment.map Expr.erase) (hs : s'.erase = s.erase) :
    (Stmt.forLoop initial' condition' increment' s').erase =
      (Stmt.forLoop initial condition increment s).erase := by
  have hcondition' : (condition'.getD (.constant (.bool true))).erase =
      (condition.getD (.constant (.bool true))).erase := by
    cases condition <;> cases condition' <;> simp_all
  have hbody : (withIncrement s' increment').erase = (withIncrement s increment).erase := by
    cases increment <;> cases increment' <;>
      simp_all [withIncrement, Stmt.erase, Stmt.eraseAll]
  rw [forLoop_eq, forLoop_eq]
  cases initial <;> cases initial' <;> simp_all [withInitial, Stmt.erase, Stmt.eraseAll]

theorem taken_forLoop {o : Bool} {keyword left semicolon right : Token} {y x : List Token}
    {initial : Option Stmt} {condition increment : Option Expr}
    (hkeyword : keyword.kind = .forWord) (hleft : left.kind = .leftParen)
    (hu : Taken .forInitial u initial) (hv : Taken .optional v condition)
    (hsemicolon : semicolon.kind = .semicolon) (hy : Taken .optional y increment)
    (hright : right.kind = .rightParen) (hx : Taken (.statement o) x s) :
    Taken (.statement o) (keyword :: left :: (u ++ (v ++ semicolon :: (y ++ right :: x))))
      (withInitial (.loop (condition.getD (.constant (.bool true))) (withIncrement s increment))
        initial) := by
  intro n rest hn hstop
  simp only [List.length_append, List.length_cons] at hn
  obtain ⟨n, rfl⟩ : ∃ m, n = m + 1 := ⟨n - 1, by omega⟩
  rw [statement]
  refine Leads.bindTakeAny (by simp [hkeyword]) ?_
  simp only [hkeyword]
  refine Leads.bindExpect hleft ?_
  refine Leads.bind (hu n (v ++ semicolon :: (y ++ right :: x) ++ rest) ?_)
    fun initial' hinitial => ?_
  · simp only [List.length_append, List.length_cons]
    omega
  refine Leads.bind (hv n .semicolon (semicolon :: (y ++ right :: x) ++ rest) ?_ (.inl rfl)
    ⟨semicolon, _, rfl, by simp [hsemicolon]⟩) fun condition' hcondition => ?_
  · simp only [List.length_append, List.length_cons]
    omega
  refine Leads.bindExpect hsemicolon ?_
  refine Leads.bind (hy n .rightParen (right :: x ++ rest) ?_ (.inr rfl)
    ⟨right, _, rfl, by simp [hright]⟩) fun increment' hincrement => ?_
  · simp only [List.length_append, List.length_cons]
    omega
  refine Leads.bindExpect hright ?_
  refine Accepts.wrap (hx n rest (by omega) hstop) fun s' hs => ?_
  rw [erase_forLoop hinitial hcondition hincrement hs, forLoop_eq]

end Statements

/-- Every phrase is taken. -/
theorem taken_of_builds {p : Phrase} {w : List Token} {t : p.Tree} (h : Builds p w t) :
    Taken p w t := by
  induction h with
  | assignVariable id hname hequals _ ih => exact taken_assignVariable id hname hequals ih
  | assignProperty _ hdot hname hequals _ iho ih =>
    exact taken_assignProperty iho hdot hname hequals ih
  | unassigned _ ih => exact taken_unassigned ih
  | absent => exact taken_absent
  | present h ih => exact taken_optional ih h.first
  | tightest _ ih => exact taken_tightest ih
  | tier _ hv ihu ihv => exact taken_tier ihu ihv hv.first
  | noOperand => exact taken_noOperand
  | operand hop _ hv ihu ihv => exact taken_operand hop ihu ihv hv.first
  | unary hop _ ih => exact taken_unary hop ih
  | call _ ih => exact taken_call ih
  | suffixed hu _ ihu ihv => exact taken_suffixed ihu ihv hu.first
  | noSuffix => exact taken_noSuffix
  | callSuffix hleft hparen _ ih => exact taken_callSuffix hleft hparen ih
  | argumentsSuffix hleft hu hlen hparen _ ihu ihv =>
    exact taken_argumentsSuffix hleft ihu hu.first hlen hparen ihv
  | propertySuffix hdot hname _ ih => exact taken_propertySuffix hdot hname ih
  | lastArgument _ ih => exact taken_lastArgument ih
  | argument _ hcomma _ ihu ihv => exact taken_argument ihu hcomma ihv
  | falseWord h | trueWord h | nilWord h => exact taken_word (by simp [h])
  | literal h hvalue => exact taken_literal h hvalue
  | name id h => exact taken_name id h
  | thisWord id h => exact taken_thisWord id h
  | superWord id h hdot hmethod => exact taken_superWord id h hdot hmethod
  | grouping hleft _ hright ih => exact taken_grouping hleft ih hright
  | noDeclaration => exact taken_noDeclaration
  | declarations hu hv ihu ihv => exact taken_declarations ihu hu.first ihv hv.first
  | classDecl hkeyword hname hleft _ hright ih =>
    exact taken_classDecl hkeyword hname hleft ih hright
  | subclassDecl id hkeyword hname hless hsuperclass hleft _ hright ih =>
    exact taken_subclassDecl id hkeyword hname hless hsuperclass hleft ih hright
  | funDecl hkeyword _ ih => exact taken_funDecl hkeyword ih
  | variableDecl _ ih => exact taken_variableDecl ih
  | statement h ih => exact taken_statement ih h.first
  | noMethod => exact taken_noMethod
  | methods hu _ ihu ihv => exact taken_methods ihu hu.first ihv
  | plainFunction hname hleft hright hfirst _ hlast ih =>
    exact taken_function hname hleft (.inl ⟨rfl, rfl⟩) hright hfirst ih hlast
  | function hname hleft hu hlen hright hfirst _ hlast ihu ih =>
    exact taken_function hname hleft (.inr ⟨ihu, hu.first, hlen⟩) hright hfirst ih hlast
  | lastParameter h => exact taken_lastParameter h
  | parameter h hcomma _ ih => exact taken_parameter h hcomma ih
  | plainVariable hkeyword hname hsemicolon => exact taken_plainVariable hkeyword hname hsemicolon
  | initialized hkeyword hname hequals _ hsemicolon ih =>
    exact taken_initialized hkeyword hname hequals ih hsemicolon
  | exprStmt _ hsemicolon ih => exact taken_exprStmt ih hsemicolon
  | noInitial h => exact taken_noInitial h
  | variableInitial _ ih => exact taken_variableInitial ih
  | expressionInitial h ih => exact taken_expressionInitial ih h.first
  | expression h ih => exact taken_expressionStmt ih h.first
  | print hkeyword _ hsemicolon ih => exact taken_print hkeyword ih hsemicolon
  | ret hkeyword _ hsemicolon ih => exact taken_ret hkeyword ih hsemicolon
  | block hleft _ hright ih => exact taken_block hleft ih hright
  | ifThen hkeyword hleft _ hright _ ihu ihv => exact taken_ifThen hkeyword hleft ihu hright ihv
  | ifElse hkeyword hleft _ hright _ hotherwise _ ihu ihv ihw =>
    exact taken_ifElse hkeyword hleft ihu hright ihv hotherwise ihw
  | loop hkeyword hleft _ hright _ ihu ihv => exact taken_loop hkeyword hleft ihu hright ihv
  | forLoop hkeyword hleft _ _ hsemicolon _ hright _ ihu ihv ihw ihx =>
    exact taken_forLoop hkeyword hleft ihu ihv hsemicolon ihw hright ihx

end ClassScript.Read
