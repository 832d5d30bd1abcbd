import ClassScript.Proofs.Grammar.Phrase

/-! # Phrases derive from the rules

Every phrase that builds a tree derives from the rules (`Builds.derivable`): a derivation is read
off the way in which the tree is built.  The rules of the operators all have one shape, so that each
level is treated once.
-/
namespace ClassScript.Grammar

open Ebnf

def Level.rule : Level → Rule
  | disjunction => .logicOr
  | conjunction => .logicAnd
  | equality => .equality
  | comparison => .comparison
  | term => .term
  | factor => .factor

/-- The rule for the operands of a level. -/
def tierRule : Option Level → Rule
  | none => .unary
  | some l => l.rule

/-- The choice between the operators of a level. -/
def Level.choice : Level → Ebnf
  | disjunction => .token .orWord
  | conjunction => .token .andWord
  | equality => any (.token .bangEqual) [.token .equalEqual]
  | comparison => any (.token .greater) [.token .greaterEqual, .token .less, .token .lessEqual]
  | term => any (.token .minus) [.token .plus]
  | factor => any (.token .slash) [.token .star]

theorem rules_level (l : Level) :
    rules l.rule = all [.rule (tierRule l.next),
      .many (all [l.choice, .rule (tierRule l.next)])] := by
  cases l <;> rfl

theorem derives_any {kind : Token.Kind} {kinds : List Token.Kind} {t : Token}
    (h : t.kind ∈ kind :: kinds) : Derives (any (.token kind) (kinds.map .token)) [t] := by
  induction kinds generalizing kind with
  | nil => exact .token (List.mem_singleton.1 h)
  | cons other kinds ih =>
    rcases List.mem_cons.1 h with h | h
    · exact .left (.token h)
    · exact .right (ih h)

theorem matches_any {L : Rule → List Token → Prop} {kind : Token.Kind} {kinds : List Token.Kind}
    {w : List Token} (h : (any (.token kind) (kinds.map .token)).Matches L w) :
    ∃ t : Token, t.kind ∈ kind :: kinds ∧ w = [t] := by
  induction kinds generalizing kind with
  | nil =>
    obtain ⟨t, ht, rfl⟩ := h
    exact ⟨t, by simp [ht], rfl⟩
  | cons other kinds ih =>
    rcases h with ⟨t, ht, rfl⟩ | h
    · exact ⟨t, by simp [ht], rfl⟩
    · obtain ⟨t, ht, rfl⟩ := ih h
      exact ⟨t, List.mem_cons_of_mem _ ht, rfl⟩

theorem Level.choice_eq (l : Level) : ∃ kind kinds,
    l.choice = any (.token kind) (kinds.map .token) ∧ ∀ k, k ∈ kind :: kinds ↔ k ∈ l.operators := by
  cases l with
  | disjunction => exact ⟨.orWord, [], rfl, by simp [operators]⟩
  | conjunction => exact ⟨.andWord, [], rfl, by simp [operators]⟩
  | equality => exact ⟨.bangEqual, [.equalEqual], rfl, by simp [operators]⟩
  | comparison => exact ⟨.greater, [.greaterEqual, .less, .lessEqual], rfl, by simp [operators]⟩
  | term => exact ⟨.minus, [.plus], rfl, by simp [operators]⟩
  | factor => exact ⟨.slash, [.star], rfl, by simp [operators, or_comm]⟩

theorem Level.derives_choice {l : Level} {t : Token} (h : t.kind ∈ l.operators) :
    Derives l.choice [t] := by
  obtain ⟨kind, kinds, heq, hmem⟩ := l.choice_eq
  rw [heq]
  exact derives_any ((hmem _).2 h)

theorem Level.matches_choice {L : Rule → List Token → Prop} {l : Level} {w : List Token}
    (h : l.choice.Matches L w) : ∃ t : Token, t.kind ∈ l.operators ∧ w = [t] := by
  obtain ⟨kind, kinds, heq, hmem⟩ := l.choice_eq
  rw [heq] at h
  obtain ⟨t, ht, rfl⟩ := matches_any h
  exact ⟨t, (hmem _).1 ht, rfl⟩

theorem Derives.upTo_mono {m n : Nat} {e : Ebnf} {w : List Token} (h : Derives (.upTo m e) w)
    (hmn : m ≤ n) : Derives (.upTo n e) w := by
  induction m generalizing n w with
  | zero =>
    cases h
    exact .upToNil
  | succ m ih =>
    cases h with
    | upToNil => exact .upToNil
    | upToCons hu hv =>
      obtain ⟨k, rfl⟩ : ∃ k, n = k + 1 := ⟨n - 1, by omega⟩
      exact .upToCons hu (ih hv (by omega))

/-- The right-hand side behind a call or a property access. -/
def suffix : Ebnf :=
  any (all [.token .leftParen, .optional (.rule .arguments), .token .rightParen])
    [all [.token .dot, .token .identifier]]

/-- Items divided by commas, at most `n` of them behind the first. -/
def commaList (item : Ebnf) (n : Nat) : Ebnf := all [item, .upTo n (all [.token .comma, item])]

/-- How a phrase derives from the rules; a list may not have more items than its tree. -/
def Phrase.Derivable : (p : Phrase) → List Token → p.Tree → Prop
  | .expression, w, _ => Derives (.rule .expression) w
  | .optional, w, _ => Derives (.optional (.rule .expression)) w
  | .tier l, w, _ => Derives (.rule (tierRule l)) w
  | .operands l, w, _ => Derives (.many (all [l.choice, .rule (tierRule l.next)])) w
  | .unary, w, _ => Derives (.rule .unary) w
  | .call, w, _ => Derives (.rule .call) w
  | .suffixes, w, _ => Derives (.many suffix) w
  | .arguments, w, es => ∃ n, es.length = n + 1 ∧ Derives (commaList (.rule .expression) n) w
  | .primary, w, _ => Derives (.rule .primary) w
  | .declarations, w, _ => Derives (.many (.rule .declaration)) w
  | .declaration, w, _ => Derives (.rule .declaration) w
  | .methods, w, _ => Derives (.many (.rule .function)) w
  | .function, w, _ => Derives (.rule .function) w
  | .parameters, w, ts => ∃ n, ts.length = n + 1 ∧ Derives (commaList (.token .identifier) n) w
  | .varDecl, w, _ => Derives (.rule .varDecl) w
  | .exprStmt, w, _ => Derives (.rule .exprStmt) w
  | .forInitial, w, _ => Derives (any (.rule .varDecl) [.rule .exprStmt, .token .semicolon]) w
  | .statement _, w, _ => Derives (.rule .statement) w

theorem derives_commaList {item : Ebnf} {n m : Nat} {w : List Token}
    (h : Derives (commaList item n) w) (hn : n ≤ m) : Derives (commaList item m) w := by
  cases h with
  | seq hu hv =>
    cases hv with
    | seq hv hnil => exact .seq hu (.seq (hv.upTo_mono hn) hnil)

theorem derives_commaList_cons {item : Ebnf} {n : Nat} {u v : List Token} {comma : Token}
    (hu : Derives item u) (hcomma : comma.kind = .comma) (hv : Derives (commaList item n) v) :
    Derives (commaList item (n + 1)) (u ++ comma :: v) := by
  cases hv with
  | seq hx hy =>
    cases hy with
    | @seq _ _ y z hy hz =>
      cases hz
      refine hu.cons (Derives.last ?_)
      have hfirst := Derives.consToken hcomma hx.last
      simpa using Derives.upToCons hfirst hy

theorem derives_tier {l : Level} {u v : List Token} (hu : Derives (.rule (tierRule l.next)) u)
    (hv : Derives (.many (all [l.choice, .rule (tierRule l.next)])) v) :
    Derives (.rule (tierRule (some l))) (u ++ v) := by
  refine .rule ?_
  rw [tierRule, rules_level]
  exact hu.cons hv.last

theorem derives_statement {r : Rule} {w : List Token} (h : Derives (.rule r) w)
    (hr : r ∈ [.exprStmt, .forStmt, .ifStmt, .printStmt, .returnStmt, .whileStmt, .block]) :
    Derives (.rule .statement) w := by
  refine .rule ?_
  simp only [List.mem_cons, List.not_mem_nil, or_false] at hr
  rcases hr with rfl | rfl | rfl | rfl | rfl | rfl | rfl
  · exact .left h
  · exact .right (.left h)
  · exact .right (.right (.left h))
  · exact .right (.right (.right (.left h)))
  · exact .right (.right (.right (.right (.left h))))
  · exact .right (.right (.right (.right (.right (.left h)))))
  · exact .right (.right (.right (.right (.right (.right h)))))

theorem derives_primary {t : Token} (h : t.kind ∈
    [Token.Kind.number, .string, .trueWord, .falseWord, .nilWord, .thisWord, .identifier]) :
    Derives (.rule .primary) [t] := by
  refine .rule ?_
  simp only [List.mem_cons, List.not_mem_nil, or_false] at h
  rcases h with h | h | h | h | h | h | h
  · exact .left (.token h)
  · exact .right (.left (.token h))
  · exact .right (.right (.left (.token h)))
  · exact .right (.right (.right (.left (.token h))))
  · exact .right (.right (.right (.right (.left (.token h)))))
  · exact .right (.right (.right (.right (.right (.left (.token h))))))
  · exact .right (.right (.right (.right (.right (.right (.left (.token h)))))))

theorem derives_block {left right : Token} {w : List Token} (hleft : left.kind = .leftBrace)
    (h : Derives (.many (.rule .declaration)) w) (hright : right.kind = .rightBrace) :
    Derives (.rule .block) (left :: (w ++ [right])) :=
  .rule (.consToken hleft (h.cons (Derives.last (.token hright))))

/-- Every phrase derives from the rules. -/
theorem Builds.derivable {p : Phrase} {w : List Token} {t : p.Tree} (h : Builds p w t) :
    p.Derivable w t := by
  induction h with
  | assignVariable _ hname hequals _ ih =>
    cases ih with
    | rule h =>
      exact .rule (.rule (.left (Derives.cons .absent
        (.consToken hname (.consToken hequals h.last)))))
  | @assignProperty dot name equals u w _ _ _ hdot hname hequals _ iho ih =>
    cases ih with
    | rule h =>
      have htarget := iho.cons (Derives.last (.token hdot))
      have hall := (Derives.present htarget).cons (.consToken hname (.consToken hequals h.last))
      rw [List.append_assoc] at hall
      exact .rule (.rule (.left hall))
  | unassigned _ ih => exact .rule (.rule (.right ih))
  | absent => exact .absent
  | present _ ih => exact .present ih
  | tightest _ ih => exact ih
  | tier _ _ ihu ihv => exact derives_tier ihu ihv
  | noOperand => exact .manyNil
  | operand hop _ _ ihu ihv =>
    exact Derives.manyCons ((Level.derives_choice hop).cons ihu.last) ihv
  | unary hop _ ih =>
    have hchoice := derives_any (show _ ∈ [Token.Kind.bang, .minus] by simpa using hop)
    exact .rule (.left (hchoice.cons ih.last))
  | call _ ih => exact .rule (.right ih)
  | suffixed _ _ ihu ihv => exact .rule (ihu.cons ihv.last)
  | noSuffix => exact .manyNil
  | callSuffix hleft hparen _ ihv =>
    exact Derives.manyCons (.left (.consToken hleft (Derives.cons .absent
      (Derives.last (.token hparen))))) ihv
  | argumentsSuffix hleft _ hlen hparen _ ihu ihv =>
    obtain ⟨n, hn, hlist⟩ := ihu
    have harguments : Derives (.rule .arguments) _ := .rule (derives_commaList hlist (by omega))
    have hcall := Derives.consToken hleft
      ((Derives.present harguments).cons (Derives.last (.token hparen)))
    have hmany := Derives.manyCons (show Derives suffix _ from .left hcall) ihv
    rw [List.cons_append, List.append_assoc] at hmany
    exact hmany
  | propertySuffix hdot hname _ ihv =>
    exact Derives.manyCons (.right (.consToken hdot (Derives.last (.token hname)))) ihv
  | lastArgument _ ih =>
    have hlist : Derives (commaList (.rule .expression) 0) (_ ++ []) :=
      ih.cons (Derives.last .upToNil)
    rw [List.append_nil] at hlist
    exact ⟨0, rfl, hlist⟩
  | argument _ hcomma _ ihu ihv =>
    obtain ⟨n, hn, hlist⟩ := ihv
    exact ⟨n + 1, by simp [hn], derives_commaList_cons ihu hcomma hlist⟩
  | falseWord h => exact derives_primary (by simp [h])
  | trueWord h => exact derives_primary (by simp [h])
  | nilWord h => exact derives_primary (by simp [h])
  | literal h _ => exact derives_primary (by rcases h with h | h <;> simp [h])
  | name _ h => exact derives_primary (by simp [h])
  | thisWord _ h => exact derives_primary (by simp [h])
  | superWord _ h hdot hmethod =>
    exact .rule (.right (.right (.right (.right (.right (.right (.right (.right
      (.consToken h (.consToken hdot (Derives.last (.token hmethod))))))))))))
  | grouping hleft _ hright ih =>
    exact .rule (.right (.right (.right (.right (.right (.right (.right (.left
      (.consToken hleft (ih.cons (Derives.last (.token hright))))))))))))
  | noDeclaration => exact .manyNil
  | declarations _ _ ihu ihv => exact .manyCons ihu ihv
  | classDecl hkeyword hname hleft _ hright ih =>
    exact .rule (.left (.rule (.consToken hkeyword (.consToken hname (Derives.cons .absent
      (.consToken hleft (ih.cons (Derives.last (.token hright)))))))))
  | subclassDecl _ hkeyword hname hless hsuperclass hleft _ hright ih =>
    have hsuper := Derives.consToken hless (Derives.last (.token hsuperclass))
    exact .rule (.left (.rule (.consToken hkeyword (.consToken hname
      ((Derives.present hsuper).cons
        (.consToken hleft (ih.cons (Derives.last (.token hright)))))))))
  | funDecl hkeyword _ ih =>
    exact .rule (.right (.left (.rule (.consToken hkeyword ih.last))))
  | variableDecl _ ih => exact .rule (.right (.right (.left ih)))
  | statement _ ih => exact .rule (.right (.right (.right ih)))
  | noMethod => exact .manyNil
  | methods _ _ ihu ihv => exact .manyCons ihu ihv
  | plainFunction hname hleft hright hfirst _ hlast ih =>
    exact .rule (.consToken hname (.consToken hleft (Derives.cons .absent
      (.consToken hright (derives_block hfirst ih hlast).last))))
  | function hname hleft _ hlen hright hfirst _ hlast ihu ih =>
    obtain ⟨n, hn, hlist⟩ := ihu
    have hparameters : Derives (.rule .parameters) _ := .rule (derives_commaList hlist (by omega))
    exact .rule (.consToken hname (.consToken hleft ((Derives.present hparameters).cons
      (.consToken hright (derives_block hfirst ih hlast).last))))
  | lastParameter h =>
    exact ⟨0, rfl, Derives.consToken h (Derives.last .upToNil)⟩
  | parameter h hcomma _ ih =>
    obtain ⟨n, hn, hlist⟩ := ih
    exact ⟨n + 1, by simp [hn], derives_commaList_cons (.token h) hcomma hlist⟩
  | plainVariable hkeyword hname hsemicolon =>
    exact .rule (.consToken hkeyword (.consToken hname (Derives.cons .absent
      (Derives.last (.token hsemicolon)))))
  | initialized hkeyword hname hequals _ hsemicolon ih =>
    have hvalue := Derives.consToken hequals ih.last
    exact .rule (.consToken hkeyword (.consToken hname ((Derives.present hvalue).cons
      (Derives.last (.token hsemicolon)))))
  | exprStmt _ hsemicolon ih => exact .rule (ih.cons (Derives.last (.token hsemicolon)))
  | noInitial h => exact .right (.right (.token h))
  | variableInitial _ ih => exact .left ih
  | expressionInitial _ ih => exact .right (.left ih)
  | expression _ ih => exact derives_statement ih (by simp)
  | print hkeyword _ hsemicolon ih =>
    exact derives_statement (.rule (.consToken hkeyword
      (ih.cons (Derives.last (.token hsemicolon))))) (r := .printStmt) (by simp)
  | ret hkeyword _ hsemicolon ih =>
    exact derives_statement (.rule (.consToken hkeyword
      (ih.cons (Derives.last (.token hsemicolon))))) (r := .returnStmt) (by simp)
  | block hleft _ hright ih => exact derives_statement (derives_block hleft ih hright) (by simp)
  | ifThen hkeyword hleft _ hright _ ihu ihv =>
    have htail := ihv.cons (Derives.last (.absent : Derives
      (.optional (all [.token .elseWord, .rule .statement])) []))
    rw [List.append_nil] at htail
    exact derives_statement (.rule (.consToken hkeyword (.consToken hleft
      (ihu.cons (.consToken hright htail))))) (r := .ifStmt) (by simp)
  | ifElse hkeyword hleft _ hright _ hotherwise _ ihu ihv ihw =>
    have helse := Derives.present (Derives.consToken hotherwise ihw.last)
    exact derives_statement (.rule (.consToken hkeyword (.consToken hleft
      (ihu.cons (.consToken hright (ihv.cons helse.last)))))) (r := .ifStmt) (by simp)
  | loop hkeyword hleft _ hright _ ihu ihv =>
    exact derives_statement (.rule (.consToken hkeyword (.consToken hleft
      (ihu.cons (.consToken hright ihv.last))))) (r := .whileStmt) (by simp)
  | forLoop hkeyword hleft _ _ hsemicolon _ hright _ ihu ihv ihw ihx =>
    exact derives_statement (.rule (.consToken hkeyword (.consToken hleft
      (ihu.cons (ihv.cons (.consToken hsemicolon (ihw.cons (.consToken hright ihx.last))))))))
      (r := .forStmt) (by simp)

end ClassScript.Grammar
