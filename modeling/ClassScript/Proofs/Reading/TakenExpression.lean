import ClassScript.Proofs.Grammar.First
import ClassScript.Proofs.Reading.Acceptance

/-! # Readers take all expressions

Where a phrase stands and what follows does not continue it, its reader takes it and yields its
tree, up to identities.  The depths are those with which readers never run out.
-/
namespace ClassScript.Read

open Grammar Rules

/-- Tokens that continue an expression of the tiers from a level on. -/
def tierStops (l : Option Level) : List Token.Kind :=
  (tiersFrom l).flatMap Tier.operators ++ [.leftParen, .dot]

def expressionStops : List Token.Kind := .equal :: tierStops (some .disjunction)

theorem tierStops_some (l : Level) : tierStops (some l) = l.operators ++ tierStops l.next := by
  simp [tierStops, tiersFrom_some, levelTier]

/-- Operators of a level do not continue its operands. -/
theorem stopped_operators (l : Level) {kind : Token.Kind} (h : kind ∈ l.operators) :
    kind ∉ tierStops l.next := by
  cases l <;> revert kind <;> decide

theorem stopped_operands {l : Level} {v rest : List Token} (hv : v = [] ∨ Begins l.operators v)
    (hrest : Stopped (tierStops (some l)) rest) : Stopped (tierStops l.next) (v ++ rest) := by
  rcases hv with rfl | ⟨t, ts, rfl, ht⟩
  · rw [tierStops_some] at hrest
    exact hrest.mono (List.subset_append_right _ _)
  · exact stopped_cons.2 (stopped_operators l ht)

theorem stopped_of_begins {first kinds : List Token.Kind} {w : List Token} (h : Begins first w)
    (hdisjoint : ∀ kind ∈ first, kind ∉ kinds) : Stopped kinds w := by
  obtain ⟨t, ts, rfl, ht⟩ := h
  exact stopped_cons.2 (hdisjoint _ ht)

/-- The next token is of none of the kinds that phrases begin with. -/
theorem not_sees {first : List Token.Kind} {kind : Token.Kind} {w : List Token} (h : Begins first w)
    (hkind : kind ∉ first) : (w.head?.map Token.kind == some kind) = false := by
  obtain ⟨t, ts, rfl, ht⟩ := h
  have hne : t.kind ≠ kind := by
    rintro rfl
    exact hkind ht
  simp [hne]

/-- The reader goes on with the suffixes of an expression in front of `rest`. -/
def continued (rest : List Token) (e : Expr) : Goal Expr := fun last errors result =>
  ∃ n e' c', result = suffixes (m := Read) n e' last c' ∧ c'.rest = rest ∧ c'.errors = errors ∧
    16 * rest.length + 1 ≤ n ∧ e'.erase = e.erase

theorem Leads.stop {r : Read Expr} {w rest : List Token} {e : Expr}
    (h : Leads r w rest (continued rest e)) (hstop : Stopped [.leftParen, .dot] rest) :
    Accepts r w rest fun e' => e'.erase = e.erase := by
  intro last c hrest
  obtain ⟨n, e', c', heq, hrest', herrors, hn, he⟩ := h last c hrest
  obtain ⟨n, rfl⟩ : ∃ m, n = m + 1 := ⟨n - 1, by omega⟩
  have hstep : Accepts (suffixes (n + 1) e') [] rest fun e'' => e'' = e' := by
    rw [suffixes]
    exact Leads.bindSkipAny hstop (Accepts.pure rfl)
  obtain ⟨e'', c'', hsuffixes, hrest'', herrors'', rfl⟩ := hstep last c' hrest'
  exact ⟨e'', c'', heq.trans hsuffixes, hrest'', herrors''.trans herrors, he⟩

/-- What it means for a phrase of a kind to be taken. -/
def Taken : (p : Phrase) → List Token → p.Tree → Prop
  | .expression, w, e => ∀ n rest, 16 * (w.length + rest.length) + 10 ≤ n →
      Stopped expressionStops rest → Accepts (expression n) w rest fun e' => e'.erase = e.erase
  | .optional, w, value => ∀ n kind rest, 16 * (w.length + rest.length) + 10 ≤ n →
      kind = .semicolon ∨ kind = .rightParen → Begins [kind] rest →
      Accepts (expressionUnless n kind) w rest fun value' =>
        value'.map Expr.erase = value.map Expr.erase
  | .tier l, w, e => ∀ n rest, 16 * (w.length + rest.length) + 3 + (tiersFrom l).length ≤ n →
      Stopped (tierStops l) rest →
        Accepts (tier n (tiersFrom l)) w rest fun e' => e'.erase = e.erase
  | .operands l, w, others => ∀ n rest left left', 16 * (w.length + rest.length) + 1 ≤ n →
      Stopped (tierStops (some l)) rest → left'.erase = left.erase →
      Accepts (tierRest n (levelTier l) (tiersFrom l.next) left') w rest fun e' =>
        e'.erase = (l.joinAll left others).erase
  | .unary, w, e => ∀ n rest, 16 * (w.length + rest.length) + 2 ≤ n →
      Stopped [.leftParen, .dot] rest → Accepts (unary n) w rest fun e' => e'.erase = e.erase
  | .call, w, e => ∀ n rest, 16 * (w.length + rest.length) + 2 ≤ n →
      Leads (unary n) w rest (continued rest e)
  | .suffixes, w, ss => ∀ n rest left left', 16 * (w.length + rest.length) + 1 ≤ n →
      left'.erase = left.erase →
      Leads (suffixes n left') w rest (continued rest (Suffix.applyAll left ss))
  | .arguments, w, es => ∀ n rest count, 16 * (w.length + rest.length) + 11 ≤ n →
      count + es.length ≤ maxArity → Stopped (.comma :: expressionStops) rest →
      Accepts (argumentsFrom n count) w rest fun es' => Expr.eraseAll es' = Expr.eraseAll es
  | .primary, w, e => ∀ n rest, 16 * (w.length + rest.length) + 1 ≤ n →
      Accepts (primary n) w rest fun e' => e'.erase = e.erase
  | .declarations, w, ss => ∀ n rest inBlock, 16 * (w.length + rest.length) + 13 ≤ n →
      (inBlock = false ∧ rest = [] ∨ inBlock = true ∧ Begins [.rightBrace] rest) →
      Accepts (statements n inBlock) w rest fun ss' => Stmt.eraseAll ss' = Stmt.eraseAll ss
  | .declaration, w, s => ∀ n rest, 16 * (w.length + rest.length) + 12 ≤ n →
      Stopped [.elseWord] rest → Accepts (declaration n) w rest fun s' => s'.erase = s.erase
  | .methods, w, ds => ∀ n rest, 16 * (w.length + rest.length) + 3 ≤ n →
      Begins [.rightBrace] rest →
      Accepts (methods n) w rest fun ds' => FunctionDecl.eraseAll ds' = FunctionDecl.eraseAll ds
  | .function, w, d => ∀ n role rest, 16 * (w.length + rest.length) + 2 ≤ n →
      Accepts (function n role) w rest fun d' => d'.erase = d.erase
  | .parameters, w, ps => ∀ n count rest, w.length + rest.length < n →
      count + ps.length ≤ maxArity → Stopped [.comma] rest →
      Accepts (parametersFrom n count) w rest fun ps' => ps' = ps
  | .varDecl, w, s => ∀ n rest, 16 * (w.length + rest.length) ≤ n + 6 →
      ∃ keyword w', w = keyword :: w' ∧ keyword.kind = .varWord ∧
        Accepts (varStmt n) w' rest fun s' => s'.erase = s.erase
  | .exprStmt, w, s => ∀ n rest, 16 * (w.length + rest.length) + 10 ≤ n →
      Accepts (exprStmt n) w rest fun s' => s'.erase = s.erase
  | .forInitial, w, initial => ∀ n rest, 16 * (w.length + rest.length) + 10 ≤ n →
      Accepts (forInitial n) w rest fun initial' =>
        initial'.map Stmt.erase = initial.map Stmt.erase
  | .statement o, w, s => ∀ n rest, 16 * (w.length + rest.length) + 11 ≤ n →
      (o = true → Stopped [.elseWord] rest) →
      Accepts (statement n) w rest fun s' => s'.erase = s.erase

theorem erase_join (l : Level) (left right : Expr) (operator : Token) :
    (l.join left operator right).erase = l.join left.erase operator right.erase := by
  cases l <;> simp [Level.join, Expr.erase]

section Expressions

variable {w u v : List Token} {e : Expr}

theorem taken_tightest (h : Taken .unary w e) : Taken (.tier none) w e := by
  intro n rest hn hstop
  obtain ⟨n, rfl⟩ : ∃ m, n = m + 1 := ⟨n - 1, by omega⟩
  rw [tiersFrom, tier]
  exact h n rest (by omega) hstop

theorem taken_tier {l : Level} {others : List (Token × Expr)} (hu : Taken (.tier l.next) u e)
    (hv : Taken (.operands l) v others) (hfirst : v = [] ∨ Begins l.operators v) :
    Taken (.tier (some l)) (u ++ v) (l.joinAll e others) := by
  intro n rest hn hstop
  rw [tiersFrom_some, List.length_cons, List.length_append] at hn
  obtain ⟨n, rfl⟩ : ∃ m, n = m + 1 := ⟨n - 1, by omega⟩
  rw [tiersFrom_some, tier]
  refine Leads.bind (hu n (v ++ rest) ?_ (stopped_operands hfirst hstop)) fun e' he => ?_
  · rw [List.length_append]
    omega
  · exact hv n rest e e' (by omega) hstop he

theorem taken_noOperand {l : Level} : Taken (.operands l) [] [] := by
  intro n rest left left' hn hstop hleft
  obtain ⟨n, rfl⟩ : ∃ m, n = m + 1 := ⟨n - 1, by omega⟩
  rw [tierRest]
  refine Leads.bindSkipAny (hstop.mono ?_) (Accepts.pure hleft)
  rw [tierStops_some]
  exact List.subset_append_left _ _

theorem taken_operand {l : Level} {operator : Token} {others : List (Token × Expr)}
    (hop : operator.kind ∈ l.operators) (hu : Taken (.tier l.next) u e)
    (hv : Taken (.operands l) v others) (hfirst : v = [] ∨ Begins l.operators v) :
    Taken (.operands l) (operator :: (u ++ v)) ((operator, e) :: others) := by
  intro n rest left left' hn hstop hleft
  rw [List.length_cons, List.length_append] at hn
  obtain ⟨n, rfl⟩ : ∃ m, n = m + 1 := ⟨n - 1, by omega⟩
  have htiers := length_tiersFrom l.next
  rw [tierRest]
  refine Leads.bindTakeAny hop ?_
  refine Leads.bind (hu n (v ++ rest) ?_ (stopped_operands hfirst hstop)) fun e' he => ?_
  · rw [List.length_append]
    omega
  · refine hv n rest (l.join left operator e) _ (by omega) hstop ?_
    rw [show (levelTier l).join = l.join from rfl, erase_join, erase_join, hleft, he]

theorem taken_unary {operator : Token} (hop : operator.kind = .bang ∨ operator.kind = .minus)
    (h : Taken .unary w e) : Taken .unary (operator :: w) (.unary operator e) := by
  intro n rest hn hstop
  rw [List.length_cons] at hn
  obtain ⟨n, rfl⟩ : ∃ m, n = m + 1 := ⟨n - 1, by omega⟩
  rw [unary]
  refine Leads.bindTakeAny (by simpa using hop) ?_
  refine Accepts.wrap (h n rest (by omega) hstop) fun e' he => ?_
  simp only [Expr.erase, he]

theorem taken_call (h : Taken .call w e) : Taken .unary w e :=
  fun n rest hn hstop => (h n rest hn).stop hstop

theorem taken_suffixed {ss : List Suffix} (hu : Taken .primary u e) (hv : Taken .suffixes v ss)
    (hfirst : Begins primaryFirst u) : Taken .call (u ++ v) (Suffix.applyAll e ss) := by
  intro n rest hn
  rw [List.length_append] at hn
  obtain ⟨n, rfl⟩ : ∃ m, n = m + 1 := ⟨n - 1, by omega⟩
  obtain ⟨t, ts, rfl, ht⟩ := hfirst
  rw [List.length_cons] at hn
  rw [unary]
  refine Leads.bindSkipAny (stopped_cons.2 ?_) ?_
  · have hdisjoint : ∀ kind ∈ primaryFirst, kind ∉ [Token.Kind.bang, .minus] := by decide
    exact hdisjoint _ ht
  · refine Leads.bind (hu n (v ++ rest) ?_) fun e' he => hv n rest e e' (by omega) he
    rw [List.length_cons, List.length_append]
    omega

theorem taken_noSuffix : Taken .suffixes [] [] := by
  intro n rest left left' hn hleft last c hrest
  exact ⟨n, left', c, rfl, hrest, rfl, by simpa using hn, hleft⟩

theorem taken_callSuffix {left paren : Token} {ss : List Suffix} (hleft : left.kind = .leftParen)
    (hparen : paren.kind = .rightParen) (hv : Taken .suffixes v ss) :
    Taken .suffixes (left :: paren :: v) (.call paren [] :: ss) := by
  intro n rest e e' hn he
  simp only [List.length_cons] at hn
  obtain ⟨n, rfl⟩ : ∃ m, n = m + 1 := ⟨n - 1, by omega⟩
  rw [suffixes]
  refine Leads.bindTakeAny (by simp [hleft]) ?_
  simp only [hleft, if_true]
  refine Leads.bindSees ?_
  simp only [List.cons_append, List.head?_cons, Option.map_some, hparen, beq_self_eq_true, if_true]
  refine Leads.bindExpect hparen (hv n rest (.call e paren []) _ (by omega) ?_)
  simp only [Expr.erase, he]

theorem taken_argumentsSuffix {left paren : Token} {es : List Expr} {ss : List Suffix}
    (hleft : left.kind = .leftParen) (hu : Taken .arguments u es)
    (hfirst : Begins expressionFirst u) (hlen : es.length ≤ maxArity)
    (hparen : paren.kind = .rightParen) (hv : Taken .suffixes v ss) :
    Taken .suffixes (left :: (u ++ paren :: v)) (.call paren es :: ss) := by
  intro n rest e e' hn he
  simp only [List.length_cons, List.length_append] at hn
  obtain ⟨n, rfl⟩ : ∃ m, n = m + 1 := ⟨n - 1, by omega⟩
  rw [suffixes]
  refine Leads.bindTakeAny (by simp [hleft]) ?_
  simp only [hleft, if_true]
  refine Leads.bindSees ?_
  rw [not_sees ((hfirst.append _).append _) (by decide)]
  refine Leads.bind (hu n (paren :: v ++ rest) 0 ?_ (by omega) ?_) fun es' hes => ?_
  · simp only [List.length_cons, List.length_append]
    omega
  · exact stopped_cons.2 (by rw [hparen]; decide)
  · refine Leads.bindExpect hparen (hv n rest (.call e paren es) _ (by omega) ?_)
    simp only [Expr.erase, he, hes]

theorem taken_propertySuffix {dot name : Token} {ss : List Suffix} (hdot : dot.kind = .dot)
    (hname : name.kind = .identifier) (hv : Taken .suffixes v ss) :
    Taken .suffixes (dot :: name :: v) (.property name :: ss) := by
  intro n rest e e' hn he
  simp only [List.length_cons] at hn
  obtain ⟨n, rfl⟩ : ∃ m, n = m + 1 := ⟨n - 1, by omega⟩
  rw [suffixes]
  refine Leads.bindTakeAny (by simp [hdot]) ?_
  simp only [hdot, reduceCtorEq, if_false]
  refine Leads.bindExpect hname (hv n rest (.get e name) _ (by omega) ?_)
  simp only [Expr.erase, he]

/-- A property behind what may be called or accessed already. -/
theorem taken_property {dot name : Token} (h : Taken .call w e) (hdot : dot.kind = .dot)
    (hname : name.kind = .identifier) : Taken .call (w ++ [dot, name]) (.get e name) := by
  intro n rest hn last c hrest
  simp only [List.length_append, List.length_cons, List.length_nil] at hn
  rw [List.append_assoc] at hrest
  obtain ⟨n₁, e₁, c₁, heq, hrest₁, herrors₁, hn₁, he₁⟩ :=
    h n ([dot, name] ++ rest) (by simp; omega) last c hrest
  obtain ⟨n₂, e₂, c₂, heq₂, hrest₂, herrors₂, hn₂, he₂⟩ :=
    taken_propertySuffix hdot hname taken_noSuffix n₁ rest e e₁
      (by simp only [List.length_append] at hn₁; exact hn₁) he₁ last c₁ hrest₁
  exact ⟨n₂, e₂, c₂, heq.trans heq₂, hrest₂, herrors₂.trans herrors₁, hn₂, he₂⟩

theorem taken_lastArgument (h : Taken .expression w e) : Taken .arguments w [e] := by
  intro n rest count hn hmax hstop
  obtain ⟨n, rfl⟩ : ∃ m, n = m + 1 := ⟨n - 1, by omega⟩
  have hcount : ¬maxArity ≤ count := by
    simp only [List.length_cons, List.length_nil] at hmax
    omega
  rw [argumentsFrom]
  simp only [hcount, if_false]
  refine Leads.bindAll (h n rest (by omega) (hstop.mono (by simp))) fun e' he => ?_
  refine Leads.bindSkip (hstop.mono (by simp)) (Accepts.pure ?_)
  simp only [Expr.eraseAll, he]

theorem taken_argument {comma : Token} {es : List Expr} (hu : Taken .expression u e)
    (hcomma : comma.kind = .comma) (hv : Taken .arguments v es) :
    Taken .arguments (u ++ comma :: v) (e :: es) := by
  intro n rest count hn hmax hstop
  simp only [List.length_append, List.length_cons] at hn hmax
  obtain ⟨n, rfl⟩ : ∃ m, n = m + 1 := ⟨n - 1, by omega⟩
  have hcount : ¬maxArity ≤ count := by omega
  rw [argumentsFrom]
  simp only [hcount, if_false]
  refine Leads.bind (hu n (comma :: v ++ rest) ?_ ?_) fun e' he => ?_
  · simp only [List.length_append, List.length_cons]
    omega
  · exact stopped_cons.2 (by rw [hcomma]; decide)
  · refine Leads.bindTake hcomma ?_
    refine Accepts.wrap (hv n rest (count + 1) (by omega) (by omega) hstop) fun es' hes => ?_
    simp only [Expr.eraseAll, he, hes]

theorem taken_word {t : Token} {value : Constant}
    (h : t.kind = .falseWord ∧ value = .bool false ∨ t.kind = .trueWord ∧ value = .bool true ∨
      t.kind = .nilWord ∧ value = .nil) : Taken .primary [t] (.constant value) := by
  intro n rest hn
  obtain ⟨n, rfl⟩ : ∃ m, n = m + 1 := ⟨n - 1, by omega⟩
  rw [primary]
  rcases h with ⟨h, rfl⟩ | ⟨h, rfl⟩ | ⟨h, rfl⟩ <;>
    refine Leads.bindTakeAny (by simp [h]) ?_ <;> simp only [h] <;> exact Accepts.pure rfl

theorem taken_name {t : Token} (id : Nat) (h : t.kind = .identifier) :
    Taken .primary [t] (.variable ⟨t, id⟩) := by
  intro n rest hn
  obtain ⟨n, rfl⟩ : ∃ m, n = m + 1 := ⟨n - 1, by omega⟩
  rw [primary]
  refine Leads.bindTakeAny (by simp [h]) ?_
  simp only [h]
  exact Leads.bindFreshId fun _ => Accepts.pure rfl

theorem taken_thisWord {t : Token} (id : Nat) (h : t.kind = .thisWord) :
    Taken .primary [t] (.this ⟨t, id⟩) := by
  intro n rest hn
  obtain ⟨n, rfl⟩ : ∃ m, n = m + 1 := ⟨n - 1, by omega⟩
  rw [primary]
  refine Leads.bindTakeAny (by simp [h]) ?_
  simp only [h]
  exact Leads.bindFreshId fun _ => Accepts.pure rfl

theorem taken_superWord {t dot method : Token} (id : Nat) (h : t.kind = .superWord)
    (hdot : dot.kind = .dot) (hmethod : method.kind = .identifier) :
    Taken .primary [t, dot, method] (.super ⟨t, id⟩ method) := by
  intro n rest hn
  obtain ⟨n, rfl⟩ : ∃ m, n = m + 1 := ⟨n - 1, by omega⟩
  rw [primary]
  refine Leads.bindTakeAny (by simp [h]) ?_
  simp only [h]
  refine Leads.bindExpect hdot (Leads.bindExpect hmethod ?_)
  exact Leads.bindFreshId fun _ => Accepts.pure rfl

theorem taken_literal {t : Token} {value : Token.Literal} (h : t.kind = .number ∨ t.kind = .string)
    (hvalue : t.literal = some value) : Taken .primary [t] (.constant (.ofLiteral value)) := by
  intro n rest hn
  obtain ⟨n, rfl⟩ : ∃ m, n = m + 1 := ⟨n - 1, by omega⟩
  rw [primary]
  refine Leads.bindTakeAny (by rcases h with h | h <;> simp [h]) ?_
  rcases h with h | h <;> simp only [h, hvalue] <;> exact Accepts.pure rfl

theorem taken_grouping {left right : Token} (hleft : left.kind = .leftParen)
    (h : Taken .expression w e) (hright : right.kind = .rightParen) :
    Taken .primary (left :: (w ++ [right])) (.grouping e) := by
  intro n rest hn
  simp only [List.length_append, List.length_cons, List.length_nil] at hn
  obtain ⟨n, rfl⟩ : ∃ m, n = m + 1 := ⟨n - 1, by omega⟩
  rw [primary]
  refine Leads.bindTakeAny (by simp [hleft]) ?_
  simp only [hleft]
  refine Leads.bind (h n ([right] ++ rest) ?_ ?_) fun e' he => ?_
  · simp only [List.length_append, List.length_cons, List.length_nil]
    omega
  · exact stopped_cons.2 (by rw [hright]; decide)
  · refine Leads.bindExpect hright (Accepts.pure ?_)
    simp only [Expr.erase, he]

/-- The operand that stands before an equals sign. -/
theorem taken_target (l : Option Level) (h : Taken .call w e) : Taken (.tier l) w e := by
  have hunary : Taken (.tier none) w e := taken_tightest (taken_call h)
  have hstep (l : Level) (h : Taken (.tier l.next) w e) : Taken (.tier (some l)) w e := by
    have htier := taken_tier h taken_noOperand (.inl rfl)
    rwa [List.append_nil] at htier
  have hfactor := hstep .factor hunary
  have hterm := hstep .term hfactor
  have hcomparison := hstep .comparison hterm
  have hequality := hstep .equality hcomparison
  have hconjunction := hstep .conjunction hequality
  cases l with
  | none => exact hunary
  | some l =>
    cases l with
    | disjunction => exact hstep .disjunction hconjunction
    | conjunction => exact hconjunction
    | equality => exact hequality
    | comparison => exact hcomparison
    | term => exact hterm
    | factor => exact hfactor

theorem taken_unassigned (h : Taken (.tier (some .disjunction)) w e) : Taken .expression w e := by
  intro n rest hn hstop
  obtain ⟨n, rfl⟩ : ∃ m, n = m + 1 := ⟨n - 1, by omega⟩
  rw [expression]
  refine Leads.bindAll (h n rest ?_ (hstop.mono ?_)) fun e' he => ?_
  · simp only [tiersFrom, tiers, List.length_cons, List.length_nil]
    omega
  · exact List.subset_cons_self _ _
  · exact Leads.bindSkip (hstop.mono (by simp [expressionStops])) (Accepts.pure he)

/-- An assignment, given what its target and value become. -/
theorem taken_assignment {equals : Token} {target value : Expr} (assigned : Expr)
    (hu : Taken .call u target) (hequals : equals.kind = .equal) (hv : Taken .expression v value)
    (hassign : ∀ target' value' rest, target'.erase = target.erase → value'.erase = value.erase →
      Accepts (assignment target' equals value') [] rest fun e => e.erase = assigned.erase) :
    Taken .expression (u ++ equals :: v) assigned := by
  intro n rest hn hstop
  simp only [List.length_append, List.length_cons] at hn
  obtain ⟨n, rfl⟩ : ∃ m, n = m + 1 := ⟨n - 1, by omega⟩
  rw [expression]
  refine Leads.bind (taken_target (some .disjunction) hu n (equals :: v ++ rest) ?_ ?_) ?_
  · simp only [tiersFrom, tiers, List.length_append, List.length_cons, List.length_nil]
    omega
  · exact stopped_cons.2 (by rw [hequals]; decide)
  · intro target' htarget
    refine Leads.bindTake hequals ?_
    exact Leads.bindAll (hv n rest (by omega) hstop) fun value' hvalue =>
      hassign target' value' rest htarget hvalue

theorem taken_assignVariable {name equals : Token} (id : Nat) (hname : name.kind = .identifier)
    (hequals : equals.kind = .equal) (h : Taken .expression w e) :
    Taken .expression (name :: equals :: w) (.assign ⟨name, id⟩ e) := by
  have hcall : Taken .call [name] (.variable ⟨name, id⟩) := by
    have hfirst : Begins primaryFirst [name] := ⟨name, [], rfl, by simp [hname, primaryFirst]⟩
    exact taken_suffixed (taken_name id hname) taken_noSuffix hfirst
  refine taken_assignment _ hcall hequals h fun target value rest htarget hvalue => ?_
  cases target <;> simp only [Expr.erase, reduceCtorEq, Expr.variable.injEq] at htarget
  case «variable» ref =>
    have hnames : ref.name = name := congrArg Reference.name htarget
    refine Leads.bindFreshId fun id' => Accepts.pure ?_
    simp only [Expr.erase, Reference.erase, hnames, hvalue]

theorem taken_assignProperty {dot name equals : Token} {object : Expr} (ho : Taken .call u object)
    (hdot : dot.kind = .dot) (hname : name.kind = .identifier) (hequals : equals.kind = .equal)
    (h : Taken .expression w e) :
    Taken .expression (u ++ dot :: name :: equals :: w) (.set object name e) := by
  have hset := taken_assignment (.set object name e) (taken_property ho hdot hname)
    hequals h fun target value rest htarget hvalue => ?_
  · rwa [List.append_assoc] at hset
  cases target <;> simp only [Expr.erase, reduceCtorEq, Expr.get.injEq] at htarget
  case get object' name' =>
    refine Accepts.pure ?_
    simp only [Expr.erase, htarget, hvalue]

theorem taken_optional (h : Taken .expression w e) (hfirst : Begins expressionFirst w) :
    Taken .optional w (some e) := by
  intro n kind rest hn hkind hrest
  refine Leads.bindSees ?_
  rw [not_sees (hfirst.append _) (by rcases hkind with rfl | rfl <;> decide)]
  refine Accepts.map (h n rest hn (stopped_of_begins hrest ?_)) fun e' he => by simp [he]
  rcases hkind with rfl | rfl <;> decide

theorem taken_absent : Taken .optional [] none := by
  intro n kind rest hn hkind hrest
  refine Leads.bindSees ?_
  obtain ⟨t, ts, rfl, ht⟩ := hrest
  have hsees : (([] ++ t :: ts).head?.map Token.kind == some kind) = true := by simpa using ht
  rw [hsees]
  exact Accepts.pure rfl

end Expressions

end ClassScript.Read
