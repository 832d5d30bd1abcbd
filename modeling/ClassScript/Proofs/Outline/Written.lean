import ClassScript.Proofs.Source.Lexemes

/-! # Programs as they are written

In a program that was read from a source text every token stands where tokens of its kind belong,
and constants are those that can be written down.
-/
namespace ClassScript

/-- A token of a source text, of one of the kinds. -/
structure Token.Stands (kinds : List Token.Kind) (t : Token) : Prop where
  written : t.Written
  mem : t.kind ∈ kinds

def Constant.Written : Constant → Prop
  | .nil | .bool _ => True
  | .number x => Number.IsNumeral x.text
  | .string s => '"' ∉ s.toList

namespace Expr

def unaryKinds : List Token.Kind := [.bang, .minus]

def binaryKinds : List Token.Kind :=
  [.bangEqual, .equalEqual, .greater, .greaterEqual, .less, .lessEqual, .minus, .plus, .star,
    .slash]

def logicalKinds : List Token.Kind := [.orWord, .andWord]

end Expr

mutual

def Expr.Written : Expr → Prop
  | .constant c => c.Written
  | .grouping e => e.Written
  | .unary operator e => operator.Stands Expr.unaryKinds ∧ e.Written
  | .binary l operator r => operator.Stands Expr.binaryKinds ∧ l.Written ∧ r.Written
  | .logical l operator r => operator.Stands Expr.logicalKinds ∧ l.Written ∧ r.Written
  | .variable ref => ref.name.Stands [.identifier]
  | .assign target e => target.name.Stands [.identifier] ∧ e.Written
  | .call f paren es => f.Written ∧ paren.Stands [.rightParen] ∧ Expr.WrittenAll es
  | .get e name => e.Written ∧ name.Stands [.identifier]
  | .set e name v => e.Written ∧ name.Stands [.identifier] ∧ v.Written
  | .this ref => ref.name.Stands [.thisWord]
  | .super ref method => ref.name.Stands [.superWord] ∧ method.Stands [.identifier]

def Expr.WrittenAll : List Expr → Prop
  | [] => True
  | e :: es => e.Written ∧ Expr.WrittenAll es

end

def Expr.WrittenOption : Option Expr → Prop
  | none => True
  | some e => e.Written

mutual

def Stmt.Written : Stmt → Prop
  | .expression e => e.Written
  | .print e => e.Written
  | .var name initial => name.Stands [.identifier] ∧ Expr.WrittenOption initial
  | .block body => Stmt.WrittenAll body
  | .branch c s none => c.Written ∧ s.Written
  | .branch c s (some t) => c.Written ∧ s.Written ∧ t.Written
  | .loop c s => c.Written ∧ s.Written
  | .function d => d.Written
  | .cls name superclass methods =>
    name.Stands [.identifier] ∧ (∀ ref ∈ superclass, ref.name.Stands [.identifier]) ∧
      FunctionDecl.WrittenAll methods
  | .ret keyword value => keyword.Stands [.returnWord] ∧ Expr.WrittenOption value

def Stmt.WrittenAll : List Stmt → Prop
  | [] => True
  | s :: ss => s.Written ∧ Stmt.WrittenAll ss

def FunctionDecl.Written : FunctionDecl → Prop
  | .mk name parameters body =>
    name.Stands [.identifier] ∧ (∀ p ∈ parameters, p.Stands [.identifier]) ∧ Stmt.WrittenAll body

def FunctionDecl.WrittenAll : List FunctionDecl → Prop
  | [] => True
  | d :: ds => d.Written ∧ FunctionDecl.WrittenAll ds

end

namespace Grammar

def Suffix.Written : Suffix → Prop
  | .call paren arguments => paren.Stands [.rightParen] ∧ Expr.WrittenAll arguments
  | .property name => name.Stands [.identifier]

/-- What phrases of a kind build. -/
def Phrase.Written : (p : Phrase) → p.Tree → Prop
  | .expression, e | .tier _, e | .unary, e | .call, e | .primary, e => Expr.Written e
  | .optional, e => Expr.WrittenOption e
  | .operands l, others => ∀ other ∈ others, other.1.Stands l.operators ∧ other.2.Written
  | .suffixes, ss => ∀ s ∈ ss, s.Written
  | .arguments, es => Expr.WrittenAll es
  | .declarations, ss => Stmt.WrittenAll ss
  | .declaration, s | .varDecl, s | .exprStmt, s | .statement _, s => Stmt.Written s
  | .methods, ds => FunctionDecl.WrittenAll ds
  | .function, d => FunctionDecl.Written d
  | .parameters, ps => ∀ p ∈ ps, p.Stands [.identifier]
  | .forInitial, initial => ∀ s ∈ initial, s.Written

theorem Level.written_join {l : Level} {t : Token} (h : t.Stands l.operators) {e e' : Expr}
    (he : e.Written) (he' : e'.Written) : (l.join e t e').Written := by
  have hsub {kinds : List Token.Kind} (hkinds : ∀ kind ∈ l.operators, kind ∈ kinds) :
      t.Stands kinds := ⟨h.written, hkinds _ h.mem⟩
  cases l <;> exact ⟨hsub (by decide), he, he'⟩

theorem written_joinAll (l : Level) {others : List (Token × Expr)} {e : Expr} (he : e.Written)
    (hothers : ∀ other ∈ others, other.1.Stands l.operators ∧ other.2.Written) :
    (l.joinAll e others).Written := by
  induction others generalizing e with
  | nil => exact he
  | cons other others ih =>
    obtain ⟨hother, hothers⟩ := List.forall_mem_cons.1 hothers
    exact ih (Level.written_join hother.1 he hother.2) hothers

theorem written_applyAll {ss : List Suffix} {e : Expr} (he : e.Written)
    (hss : ∀ s ∈ ss, s.Written) : (Suffix.applyAll e ss).Written := by
  induction ss generalizing e with
  | nil => exact he
  | cons s ss ih =>
    obtain ⟨hs, hss⟩ := List.forall_mem_cons.1 hss
    refine ih ?_ hss
    cases s with
    | call paren arguments => exact ⟨he, hs⟩
    | property name => exact ⟨he, hs⟩

theorem written_forLoop {initial : Option Stmt} {condition increment : Option Expr} {s : Stmt}
    (hinitial : ∀ s ∈ initial, s.Written) (hcondition : Expr.WrittenOption condition)
    (hincrement : Expr.WrittenOption increment) (hs : s.Written) :
    (withInitial (.loop (condition.getD (.constant (.bool true))) (withIncrement s increment))
      initial).Written := by
  have hcond : (condition.getD (.constant (.bool true))).Written := by
    cases condition with
    | none => trivial
    | some e => exact hcondition
  have hbody : (withIncrement s increment).Written := by
    cases increment with
    | none => exact hs
    | some e => exact ⟨hs, hincrement, trivial⟩
  cases initial with
  | none => exact ⟨hcond, hbody⟩
  | some first => exact ⟨hinitial first rfl, ⟨hcond, hbody⟩, trivial⟩

theorem written_literal {t : Token} {value : Token.Literal} (ht : t.Written)
    (h : t.literal = some value) : (Constant.ofLiteral value).Written := by
  cases ht <;> cases h <;> assumption

/-- Phrases of written tokens build written trees. -/
theorem Builds.written {p : Phrase} {w : List Token} {t : p.Tree} (h : Builds p w t)
    (hw : ∀ t ∈ w, t.Written) : p.Written t := by
  have stands {w : List Token} (hw : ∀ t ∈ w, t.Written) {t : Token} (ht : t ∈ w)
      {kinds : List Token.Kind} (hkind : t.kind ∈ kinds) : t.Stands kinds := ⟨hw t ht, hkind⟩
  induction h with
  | absent | noOperand | noSuffix | noDeclaration | noMethod | falseWord | trueWord | nilWord
  | noInitial => simp [Phrase.Written, Expr.Written, Constant.Written, Expr.WrittenOption,
      Stmt.WrittenAll, FunctionDecl.WrittenAll]
  | literal _ hvalue => exact written_literal (hw _ (by simp)) hvalue
  | unassigned _ ih | present _ ih | tightest _ ih | call _ ih | variableDecl _ ih
  | expression _ ih | statement _ ih => exact ih hw
  | lastArgument _ ih => exact ⟨ih hw, trivial⟩
  | variableInitial _ ih | expressionInitial _ ih => simpa [Phrase.Written] using ih hw
  | assignVariable _ hname _ _ ih =>
    exact ⟨stands hw (by simp) (by simp [hname]), ih fun t ht => hw t (by simp [ht])⟩
  | assignProperty _ _ hname _ _ iho ih =>
    exact ⟨iho fun t ht => hw t (by simp [ht]), stands hw (by simp) (by simp [hname]),
      ih fun t ht => hw t (by simp [ht])⟩
  | tier _ _ ihu ihv =>
    exact written_joinAll _ (ihu fun t ht => hw t (by simp [ht]))
      (ihv fun t ht => hw t (by simp [ht]))
  | operand hop _ _ ihu ihv =>
    exact List.forall_mem_cons.2
      ⟨⟨stands hw (by simp) hop, ihu fun t ht => hw t (by simp [ht])⟩,
        ihv fun t ht => hw t (by simp [ht])⟩
  | unary hop _ ih =>
    exact ⟨stands hw (by simp) (by simpa [Expr.unaryKinds] using hop),
      ih fun t ht => hw t (by simp [ht])⟩
  | suffixed _ _ ihu ihv =>
    exact written_applyAll (ihu fun t ht => hw t (by simp [ht]))
      (ihv fun t ht => hw t (by simp [ht]))
  | callSuffix _ hparen _ ih =>
    exact List.forall_mem_cons.2
      ⟨⟨stands hw (by simp) (by simp [hparen]), trivial⟩, ih fun t ht => hw t (by simp [ht])⟩
  | argumentsSuffix _ _ _ hparen _ ihu ihv =>
    exact List.forall_mem_cons.2
      ⟨⟨stands hw (by simp) (by simp [hparen]), ihu fun t ht => hw t (by simp [ht])⟩,
        ihv fun t ht => hw t (by simp [ht])⟩
  | propertySuffix _ hname _ ih =>
    exact List.forall_mem_cons.2
      ⟨stands hw (by simp) (by simp [hname]), ih fun t ht => hw t (by simp [ht])⟩
  | argument _ _ _ ihu ihv =>
    exact ⟨ihu fun t ht => hw t (by simp [ht]), ihv fun t ht => hw t (by simp [ht])⟩
  | name _ h | thisWord _ h => exact stands hw (by simp) (by simp [h])
  | superWord _ h _ hmethod =>
    exact ⟨stands hw (by simp) (by simp [h]), stands hw (by simp) (by simp [hmethod])⟩
  | grouping _ _ _ ih => exact ih fun t ht => hw t (by simp [ht])
  | declarations _ _ ihu ihv | methods _ _ ihu ihv =>
    have hu := ihu fun t ht => hw t (by simp [ht])
    have hv := ihv fun t ht => hw t (by simp [ht])
    exact ⟨hu, hv⟩
  | classDecl _ hname _ _ _ ih =>
    exact ⟨stands hw (by simp) (by simp [hname]), by simp, ih fun t ht => hw t (by simp [ht])⟩
  | subclassDecl _ _ hname _ hsuperclass _ _ _ ih =>
    refine ⟨stands hw (by simp) (by simp [hname]), ?_, ih fun t ht => hw t (by simp [ht])⟩
    rintro _ ⟨⟩
    exact stands hw (by simp) (by simp [hsuperclass])
  | funDecl _ _ ih => exact ih fun t ht => hw t (by simp [ht])
  | plainFunction hname _ _ _ _ _ ih =>
    exact ⟨stands hw (by simp) (by simp [hname]), by simp, ih fun t ht => hw t (by simp [ht])⟩
  | function hname _ _ _ _ _ _ _ ihu ih =>
    exact ⟨stands hw (by simp) (by simp [hname]), ihu fun t ht => hw t (by simp [ht]),
      ih fun t ht => hw t (by simp [ht])⟩
  | lastParameter h =>
    exact List.forall_mem_cons.2 ⟨stands hw (by simp) (by simp [h]), by simp⟩
  | parameter h _ _ ih =>
    exact List.forall_mem_cons.2
      ⟨stands hw (by simp) (by simp [h]), ih fun t ht => hw t (by simp [ht])⟩
  | plainVariable _ hname _ => exact ⟨stands hw (by simp) (by simp [hname]), trivial⟩
  | initialized _ hname _ _ _ ih =>
    exact ⟨stands hw (by simp) (by simp [hname]), ih fun t ht => hw t (by simp [ht])⟩
  | exprStmt _ _ ih | print _ _ _ ih | block _ _ _ ih =>
    exact ih fun t ht => hw t (by simp [ht])
  | ret hkeyword _ _ ih =>
    exact ⟨stands hw (by simp) (by simp [hkeyword]), ih fun t ht => hw t (by simp [ht])⟩
  | ifThen _ _ _ _ _ ihu ihv | loop _ _ _ _ _ ihu ihv =>
    exact ⟨ihu fun t ht => hw t (by simp [ht]), ihv fun t ht => hw t (by simp [ht])⟩
  | ifElse _ _ _ _ _ _ _ ihu ihv ihw =>
    exact ⟨ihu fun t ht => hw t (by simp [ht]), ihv fun t ht => hw t (by simp [ht]),
      ihw fun t ht => hw t (by simp [ht])⟩
  | forLoop _ _ _ _ _ _ _ _ ihu ihv ihw ihx =>
    exact written_forLoop (ihu fun t ht => hw t (by simp [ht]))
      (ihv fun t ht => hw t (by simp [ht])) (ihw fun t ht => hw t (by simp [ht]))
      (ihx fun t ht => hw t (by simp [ht]))

end Grammar

/-- A program that was read from a source text is as it is written there. -/
theorem Program.written_ofSource {n : Nat} {source : String} {program : Program}
    (hfinite : Source.NumbersFinite source) (h : (ofSource n source).1 = .ok program) :
    Stmt.WrittenAll program := by
  obtain ⟨-, hspec⟩ := ofTokens_spec n (Source.tokens source)
  unfold ofSource at h
  cases hread : (ofTokens n (Source.tokens source)).outcome with
  | error errors => simp [hread] at h
  | ok program' =>
    rw [hread] at hspec
    obtain rfl : program' = program := by
      simp only [hread] at h
      split at h
      · simpa using h
      · cases h
    refine hspec.1.written fun t ht => ?_
    exact Source.written_tokens hfinite t ((List.takeWhile_sublist _).subset ht)

end ClassScript
