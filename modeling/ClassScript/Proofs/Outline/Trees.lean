import ClassScript.Proofs.Outline.Form
import ClassScript.Proofs.Outline.Written

/-! # Forms of programs

The outline of a tree is the text of a form, and the forms of trees that were read from a source
text are clear.
-/
namespace ClassScript

def Constant.form : Constant → Form
  | .nil => .word "nil"
  | .bool true => .word "true"
  | .bool false => .word "false"
  | .number x => .word x.text
  | .string s => .quoted s

mutual

def Expr.form : Expr → Form
  | .constant c => c.form
  | .grouping e => .list "group" [e.form]
  | .unary op e => .list op.lexeme [e.form]
  | .binary l op r => .list op.lexeme [l.form, r.form]
  | .logical l op r => .list op.lexeme [l.form, r.form]
  | .variable x => .word x.name.lexeme
  | .assign x e => .list "=" [.word x.name.lexeme, e.form]
  | .call f _ es => .list "call" (f.form :: Expr.formAll es)
  | .get e name => .list "." [e.form, .word name.lexeme]
  | .set e name v => .list ".=" [e.form, .word name.lexeme, v.form]
  | .this _ => .word "this"
  | .super _ method => .list "super" [.word method.lexeme]

def Expr.formAll : List Expr → List Form
  | [] => []
  | e :: es => e.form :: Expr.formAll es

end

mutual

def Stmt.form : Stmt → Form
  | .expression e => .list ";" [e.form]
  | .print e => .list "print" [e.form]
  | .var name none => .list "var" [.word name.lexeme]
  | .var name (some e) => .list "var" [.word name.lexeme, e.form]
  | .block body => .list "block" (Stmt.formAll body)
  | .branch c s none => .list "if" [c.form, s.form]
  | .branch c s (some t) => .list "if" [c.form, s.form, t.form]
  | .loop c s => .list "while" [c.form, s.form]
  | .function d => d.form "fun"
  | .cls name none methods => .list "class" (.word name.lexeme :: FunctionDecl.formAll methods)
  | .cls name (some x) methods =>
    .list "class" (.word name.lexeme :: .word "<" :: .word x.name.lexeme ::
      FunctionDecl.formAll methods)
  | .ret _ none => .list "return" []
  | .ret _ (some e) => .list "return" [e.form]

def Stmt.formAll : List Stmt → List Form
  | [] => []
  | s :: ss => s.form :: Stmt.formAll ss

def FunctionDecl.form (word : String) : FunctionDecl → Form
  | .mk name parameters body =>
    .list word (.signature name.lexeme (parameters.map Token.lexeme) :: Stmt.formAll body)

def FunctionDecl.formAll : List FunctionDecl → List Form
  | [] => []
  | d :: ds => d.form "method" :: FunctionDecl.formAll ds

end

theorem Constant.toList_outline (c : Constant) : c.outline.toList = c.form.chars := by
  cases c with
  | bool value => cases value <;> rfl
  | nil => rfl
  | number x => rfl
  | string s => simp [Constant.outline, Constant.form, Form.chars]

mutual

theorem Expr.toList_outline (e : Expr) : e.outline.toList = e.form.chars := by
  cases e with
  | constant c => exact c.toList_outline
  | call f paren es =>
    simp [Expr.outline, Expr.form, Form.chars, Form.charsAfter, Expr.toList_outline f,
      Expr.toList_outlineTail es]
  | grouping e | unary op e | assign x e | get e name =>
    simp [Expr.outline, Expr.form, Form.chars, Form.charsAfter, Expr.toList_outline e]
  | binary l op r | logical l op r =>
    simp [Expr.outline, Expr.form, Form.chars, Form.charsAfter, Expr.toList_outline l,
      Expr.toList_outline r]
  | set e name v =>
    simp [Expr.outline, Expr.form, Form.chars, Form.charsAfter, Expr.toList_outline e,
      Expr.toList_outline v]
  | «variable» x | this x | super x method =>
    simp [Expr.outline, Expr.form, Form.chars, Form.charsAfter]

theorem Expr.toList_outlineTail (es : List Expr) :
    (Expr.outlineTail es).toList = Form.charsAfter ' ' (Expr.formAll es) := by
  cases es with
  | nil => rfl
  | cons e es =>
    simp [Expr.outlineTail, Expr.formAll, Form.charsAfter, Expr.toList_outline e,
      Expr.toList_outlineTail es]

end

mutual

theorem Stmt.toList_outline (s : Stmt) : s.outline.toList = s.form.chars := by
  cases s with
  | expression e | print e =>
    simp [Stmt.outline, Stmt.form, Form.chars, Form.charsAfter, Expr.toList_outline]
  | var name initial =>
    cases initial <;>
      simp [Stmt.outline, Stmt.form, Form.chars, Form.charsAfter, Expr.toList_outline]
  | block body =>
    simp [Stmt.outline, Stmt.form, Form.chars, Stmt.toList_outlineTail body]
  | branch c s t =>
    cases t with
    | none =>
      simp [Stmt.outline, Stmt.form, Form.chars, Form.charsAfter, Expr.toList_outline,
        Stmt.toList_outline s]
    | some t =>
      simp [Stmt.outline, Stmt.form, Form.chars, Form.charsAfter, Expr.toList_outline,
        Stmt.toList_outline s, Stmt.toList_outline t]
  | loop c s =>
    simp [Stmt.outline, Stmt.form, Form.chars, Form.charsAfter, Expr.toList_outline,
      Stmt.toList_outline s]
  | function d => exact FunctionDecl.toList_outline "fun" d
  | cls name superclass methods =>
    cases superclass <;>
      simp [Stmt.outline, Stmt.form, Form.chars, Form.charsAfter,
        FunctionDecl.toList_outlineTail methods]
  | ret keyword value =>
    cases value <;>
      simp [Stmt.outline, Stmt.form, Form.chars, Form.charsAfter, Expr.toList_outline]

theorem Stmt.toList_outlineTail (ss : List Stmt) :
    (Stmt.outlineTail ss).toList = Form.charsAfter ' ' (Stmt.formAll ss) := by
  cases ss with
  | nil => rfl
  | cons s ss =>
    simp [Stmt.outlineTail, Stmt.formAll, Form.charsAfter, Stmt.toList_outline s,
      Stmt.toList_outlineTail ss]

theorem FunctionDecl.toList_outline (word : String) (d : FunctionDecl) :
    (d.outline word).toList = (d.form word).chars := by
  obtain ⟨name, parameters, body⟩ := d
  simp [FunctionDecl.outline, FunctionDecl.form, Form.chars, Form.charsAfter,
    Stmt.toList_outlineTail body, String.toList_intercalate]

theorem FunctionDecl.toList_outlineTail (ds : List FunctionDecl) :
    (FunctionDecl.outlineTail ds).toList = Form.charsAfter ' ' (FunctionDecl.formAll ds) := by
  cases ds with
  | nil => rfl
  | cons d ds =>
    simp [FunctionDecl.outlineTail, FunctionDecl.formAll, Form.charsAfter,
      FunctionDecl.toList_outline "method" d, FunctionDecl.toList_outlineTail ds]

end

theorem Stmt.formAll_eq_map (ss : List Stmt) : Stmt.formAll ss = ss.map Stmt.form := by
  induction ss with
  | nil => rfl
  | cons s ss ih => rw [Stmt.formAll, ih, List.map_cons]

theorem Program.toList_outline (p : Program) :
    p.outline.toList = ['\n'].intercalate ((Stmt.formAll p).map Form.chars) := by
  simp [Program.outline, String.toList_intercalate, Stmt.formAll_eq_map, Function.comp_def,
    Stmt.toList_outline]

namespace Token

/-- The tokens with one spelling. -/
def spellings : List (String × Kind) := symbols ++ reservedWords

def IsFixed (kind : Kind) : Prop := kind ∈ spellings.map Prod.snd

instance (kind : Kind) : Decidable (IsFixed kind) := inferInstanceAs (Decidable (_ ∈ _))

theorem Stands.fixed {kinds : List Kind} {t : Token} (h : t.Stands kinds)
    (hkinds : ∀ kind ∈ kinds, IsFixed kind) :
    (t.lexeme, t.kind) ∈ spellings ∧ t.literal = none := by
  have hkind := hkinds _ h.mem
  cases h.written with
  | fixed line hmem => exact ⟨hmem, rfl⟩
  | name line _ => exact absurd hkind (by decide : ¬ IsFixed .identifier)
  | number line _ => exact absurd hkind (by decide : ¬ IsFixed .number)
  | string line _ => exact absurd hkind (by decide : ¬ IsFixed .string)
  | endOfInput line => exact absurd hkind (by decide : ¬ IsFixed .endOfInput)

theorem Stands.name {t : Token} (h : t.Stands [.identifier]) :
    t.kind = .identifier ∧ IsName t.lexeme ∧ t.literal = none := by
  have hkind := List.mem_singleton.1 h.mem
  cases h.written with
  | name line hname => exact ⟨rfl, hname, rfl⟩
  | fixed line hmem =>
    have hfixed : IsFixed .identifier := List.mem_map.2 ⟨_, hmem, hkind⟩
    exact absurd hfixed (by decide)
  | number line _ | string line _ | endOfInput line => cases hkind

end Token

namespace Form

/-- Characters of a class are plain if those that are not plain do not belong to it. -/
theorem isPlain_of_class {P : Char → Prop}
    (hP : ¬P ' ' ∧ ¬P '\n' ∧ ¬P '(' ∧ ¬P ')' ∧ ¬P '"') {c : Char} (h : P c) :
    isPlain c = true := by
  have hne (d : Char) (hd : ¬P d) : c ≠ d := fun heq => hd (heq ▸ h)
  simp [isPlain, hne, hP]

theorem isPlain_of_isWordChar {c : Char} (h : Source.isWordChar c = true) : isPlain c = true :=
  isPlain_of_class (P := fun c => Source.isWordChar c = true) (by decide) h

theorem isPlain_of_numeral {c : Char} (h : c.isDigit = true ∨ c = '.') : isPlain c = true :=
  isPlain_of_class (P := fun c => c.isDigit = true ∨ c = '.') (by decide) h

theorem isWord_of_isName {text : String} (h : Token.IsName text) : IsWord text := by
  obtain ⟨c, cs, htext, hc, hcs⟩ := h.chars
  refine ⟨by simp [htext], ?_⟩
  rw [htext]
  have hfirst : Source.isWordChar c = true := by simp [Source.isWordChar, hc]
  exact List.forall_mem_cons.2
    ⟨isPlain_of_isWordChar hfirst, fun d hd => isPlain_of_isWordChar (hcs d hd)⟩

theorem isWord_of_isNumeral {text : String} (h : Number.IsNumeral text) : IsWord text := by
  obtain ⟨c, cs, htext, hc, hcs⟩ := h
  refine ⟨by simp [htext], ?_⟩
  rw [htext]
  exact List.forall_mem_cons.2
    ⟨isPlain_of_numeral (.inl hc), fun d hd => isPlain_of_numeral (hcs d hd)⟩

instance (text : String) : Decidable (IsWord text) :=
  decidable_of_iff (text.toList ≠ [] ∧ text.toList.all isPlain = true)
    ⟨fun h => ⟨h.1, List.all_eq_true.1 h.2⟩, fun h => ⟨h.1, List.all_eq_true.2 h.2⟩⟩

end Form

namespace Expr

/-- The kinds of all operators. -/
def operatorKinds : List Token.Kind := unaryKinds ++ binaryKinds ++ logicalKinds

theorem isWord_operator {kinds : List Token.Kind} {t : Token} (h : t.Stands kinds)
    (hkinds : ∀ kind ∈ kinds, kind ∈ operatorKinds) : Form.IsWord t.lexeme := by
  have hword : ∀ p ∈ Token.spellings, p.2 ∈ operatorKinds → Form.IsWord p.1 := by decide +kernel
  have hfixed : ∀ kind ∈ operatorKinds, Token.IsFixed kind := by decide
  exact hword _ (h.fixed fun kind hk => hfixed kind (hkinds kind hk)).1 (hkinds _ h.mem)

end Expr

theorem Constant.Written.clear {c : Constant} (h : c.Written) : c.form.Clear := by
  cases c with
  | nil => exact (by decide : Form.IsWord "nil")
  | bool value =>
    cases value with
    | false => exact (by decide : Form.IsWord "false")
    | true => exact (by decide : Form.IsWord "true")
  | number x => exact Form.isWord_of_isNumeral h
  | string s => exact h

theorem Token.Stands.isWord {t : Token} (h : t.Stands [.identifier]) : Form.IsWord t.lexeme :=
  Form.isWord_of_isName h.name.2.1

mutual

theorem Expr.Written.clear : ∀ {e : Expr}, e.Written → e.form.Clear
  | .constant _, h => Constant.Written.clear h
  | .grouping _, h => ⟨by decide, Expr.Written.clear h, trivial⟩
  | .unary _ _, h =>
    ⟨Expr.isWord_operator h.1 (by decide), Expr.Written.clear h.2, trivial⟩
  | .binary _ _ _, h =>
    ⟨Expr.isWord_operator h.1 (by decide), Expr.Written.clear h.2.1, Expr.Written.clear h.2.2,
      trivial⟩
  | .logical _ _ _, h =>
    ⟨Expr.isWord_operator h.1 (by decide), Expr.Written.clear h.2.1, Expr.Written.clear h.2.2,
      trivial⟩
  | .variable _, h => Token.Stands.isWord h
  | .assign _ _, h => ⟨by decide, h.1.isWord, Expr.Written.clear h.2, trivial⟩
  | .call _ _ _, h => ⟨by decide, Expr.Written.clear h.1, Expr.WrittenAll.clear h.2.2⟩
  | .get _ _, h => ⟨by decide, Expr.Written.clear h.1, h.2.isWord, trivial⟩
  | .set _ _ _, h =>
    ⟨by decide, Expr.Written.clear h.1, h.2.1.isWord, Expr.Written.clear h.2.2, trivial⟩
  | .this _, _ => (by decide : Form.IsWord "this")
  | .super _ _, h => ⟨by decide, h.2.isWord, trivial⟩

theorem Expr.WrittenAll.clear : ∀ {es : List Expr}, Expr.WrittenAll es →
    Form.ClearAll (Expr.formAll es)
  | [], _ => trivial
  | _ :: _, h => ⟨Expr.Written.clear h.1, Expr.WrittenAll.clear h.2⟩

end

mutual

theorem Stmt.Written.clear : ∀ {s : Stmt}, s.Written → s.form.Clear
  | .expression _, h => ⟨by decide, Expr.Written.clear h, trivial⟩
  | .print _, h => ⟨by decide, Expr.Written.clear h, trivial⟩
  | .var _ none, h => ⟨by decide, h.1.isWord, trivial⟩
  | .var _ (some _), h => ⟨by decide, h.1.isWord, Expr.Written.clear h.2, trivial⟩
  | .block _, h => ⟨by decide, Stmt.WrittenAll.clear h⟩
  | .branch _ _ none, h => ⟨by decide, h.1.clear, Stmt.Written.clear h.2, trivial⟩
  | .branch _ _ (some _), h =>
    ⟨by decide, h.1.clear, Stmt.Written.clear h.2.1, Stmt.Written.clear h.2.2, trivial⟩
  | .loop _ _, h => ⟨by decide, h.1.clear, Stmt.Written.clear h.2, trivial⟩
  | .function _, h => FunctionDecl.Written.clear (by decide) h
  | .cls _ none _, h => ⟨by decide, h.1.isWord, FunctionDecl.WrittenAll.clear h.2.2⟩
  | .cls _ (some _) _, h =>
    ⟨by decide, h.1.isWord, (by decide : Form.IsWord "<"), (h.2.1 _ rfl).isWord,
      FunctionDecl.WrittenAll.clear h.2.2⟩
  | .ret _ none, _ => ⟨by decide, trivial⟩
  | .ret _ (some _), h => ⟨by decide, Expr.Written.clear h.2, trivial⟩

theorem Stmt.WrittenAll.clear : ∀ {ss : List Stmt}, Stmt.WrittenAll ss →
    Form.ClearAll (Stmt.formAll ss)
  | [], _ => trivial
  | _ :: _, h => ⟨Stmt.Written.clear h.1, Stmt.WrittenAll.clear h.2⟩

theorem FunctionDecl.Written.clear {word : String} (hword : Form.IsWord word) :
    ∀ {d : FunctionDecl}, d.Written → (d.form word).Clear
  | .mk _ _ _, h => by
    refine ⟨hword, ⟨h.1.isWord, fun p hp => ?_⟩, Stmt.WrittenAll.clear h.2.2⟩
    obtain ⟨t, ht, rfl⟩ := List.mem_map.1 hp
    exact (h.2.1 t ht).isWord

theorem FunctionDecl.WrittenAll.clear : ∀ {ds : List FunctionDecl}, FunctionDecl.WrittenAll ds →
    Form.ClearAll (FunctionDecl.formAll ds)
  | [], _ => trivial
  | _ :: _, h => ⟨FunctionDecl.Written.clear (by decide) h.1, FunctionDecl.WrittenAll.clear h.2⟩

end

end ClassScript
