import ClassScript.Proofs.Renaming.Basic

/-! # Programs that are alike

A looser relation than that of a renamed declaration, which pieces of programs keep while they are
analysed and evaluated: some of the scopes that are open around a piece and some of those that it
opens are chosen, and in these the old name has become the new one.
-/
namespace ClassScript

variable {ρ : Renaming} {marks marks' : List Bool}

/-- What is asked of expressions: they are shaped right and do not use the new name. -/
def Expr.Avoids (ρ : Renaming) (e : Expr) : Prop := e.Shaped ∧ e.Lacks ρ.new

def Expr.AvoidsAll (ρ : Renaming) (es : List Expr) : Prop :=
  Expr.ShapedAll es ∧ Expr.LacksAll ρ.new es

/-- A name that keeps its spelling if it is declared in a scope that is chosen or not. -/
def Token.Keeps (ρ : Renaming) (chosen : Bool) (t : Token) : Prop :=
  t.lexeme ≠ ρ.new ∧ (chosen = true → t.lexeme ≠ ρ.old)

mutual

inductive Stmt.Alike (ρ : Renaming) : List Bool → Stmt → Stmt → Prop where
  | expression {marks : List Bool} {e : Expr} (he : e.Avoids ρ) :
      Stmt.Alike ρ marks (.expression e) (.expression (e.rename ρ marks))
  | print {marks : List Bool} {e : Expr} (he : e.Avoids ρ) :
      Stmt.Alike ρ marks (.print e) (.print (e.rename ρ marks))
  | declare {marks : List Bool} {name : Token} (hname : name.lexeme ≠ ρ.new) :
      Stmt.Alike ρ marks (.var name none) (.var (name.rename ρ (marks.headD false)) none)
  | var {marks : List Bool} {name : Token} {e : Expr} (hname : name.lexeme ≠ ρ.new)
      (he : e.Avoids ρ) :
      Stmt.Alike ρ marks (.var name (some e))
        (.var (name.rename ρ (marks.headD false)) (some (e.rename ρ marks)))
  | block {marks : List Bool} (chosen : Bool) {body body' : List Stmt}
      (h : Stmt.AlikeAll ρ (chosen :: marks) body body') :
      Stmt.Alike ρ marks (.block body) (.block body')
  | ifThen {marks : List Bool} {c : Expr} {s s' : Stmt} (hc : c.Avoids ρ)
      (hs : Stmt.Alike ρ marks s s') :
      Stmt.Alike ρ marks (.branch c s none) (.branch (c.rename ρ marks) s' none)
  | ifElse {marks : List Bool} {c : Expr} {s s' t t' : Stmt} (hc : c.Avoids ρ)
      (hs : Stmt.Alike ρ marks s s') (ht : Stmt.Alike ρ marks t t') :
      Stmt.Alike ρ marks (.branch c s (some t)) (.branch (c.rename ρ marks) s' (some t'))
  | loop {marks : List Bool} {c : Expr} {s s' : Stmt} (hc : c.Avoids ρ)
      (hs : Stmt.Alike ρ marks s s') : Stmt.Alike ρ marks (.loop c s) (.loop (c.rename ρ marks) s')
  | function {marks : List Bool} {d d' : FunctionDecl}
      (hname : d.name.Keeps ρ (marks.headD false)) (h : FunctionDecl.Alike ρ marks d d') :
      Stmt.Alike ρ marks (.function d) (.function d')
  | plainClass {marks : List Bool} {name : Token} {methods methods' : List FunctionDecl}
      (hname : name.Keeps ρ (marks.headD false))
      (h : FunctionDecl.AlikeAll ρ (false :: marks) methods methods') :
      Stmt.Alike ρ marks (.cls name none methods) (.cls name none methods')
  | subclass {marks : List Bool} {name : Token} {superclass : Reference}
      {methods methods' : List FunctionDecl} (hname : name.Keeps ρ (marks.headD false))
      (hsuperclass : superclass.name.lexeme ≠ ρ.new)
      (h : FunctionDecl.AlikeAll ρ (false :: false :: marks) methods methods') :
      Stmt.Alike ρ marks (.cls name (some superclass) methods)
        (.cls name (some (superclass.rename ρ marks)) methods')
  | ret {marks : List Bool} {keyword : Token} :
      Stmt.Alike ρ marks (.ret keyword none) (.ret keyword none)
  | retValue {marks : List Bool} {keyword : Token} {e : Expr} (he : e.Avoids ρ) :
      Stmt.Alike ρ marks (.ret keyword (some e)) (.ret keyword (some (e.rename ρ marks)))

inductive Stmt.AlikeAll (ρ : Renaming) : List Bool → List Stmt → List Stmt → Prop where
  | nil {marks : List Bool} : Stmt.AlikeAll ρ marks [] []
  | cons {marks : List Bool} {s s' : Stmt} {ss ss' : List Stmt} (hs : Stmt.Alike ρ marks s s')
      (hss : Stmt.AlikeAll ρ marks ss ss') : Stmt.AlikeAll ρ marks (s :: ss) (s' :: ss')

inductive FunctionDecl.Alike (ρ : Renaming) : List Bool → FunctionDecl → FunctionDecl → Prop where
  | mk {marks : List Bool} (chosen : Bool) {name : Token} {parameters : List Token}
      {body body' : List Stmt} (hparameters : ∀ p ∈ parameters, p.lexeme ≠ ρ.new)
      (h : Stmt.AlikeAll ρ (chosen :: marks) body body') :
      FunctionDecl.Alike ρ marks (.mk name parameters body)
        (.mk name (parameters.map (Token.rename ρ chosen)) body')

inductive FunctionDecl.AlikeAll (ρ : Renaming) :
    List Bool → List FunctionDecl → List FunctionDecl → Prop where
  | nil {marks : List Bool} : FunctionDecl.AlikeAll ρ marks [] []
  | cons {marks : List Bool} {d d' : FunctionDecl} {ds ds' : List FunctionDecl}
      (hd : FunctionDecl.Alike ρ marks d d') (hds : FunctionDecl.AlikeAll ρ marks ds ds') :
      FunctionDecl.AlikeAll ρ marks (d :: ds) (d' :: ds')

end

theorem FunctionDecl.Alike.name_eq {d d' : FunctionDecl}
    (h : FunctionDecl.Alike ρ marks d d') : d'.name = d.name := by
  cases h
  rfl

theorem FunctionDecl.Alike.arity_eq {d d' : FunctionDecl}
    (h : FunctionDecl.Alike ρ marks d d') : d'.arity = d.arity := by
  cases h
  exact List.length_map _

/-! ### Marks -/

/-- Marks that choose the same scopes. -/
def SameMarks (marks marks' : List Bool) : Prop :=
  ∀ d : Nat, (marks[d]?).getD false = (marks'[d]?).getD false

theorem SameMarks.refl (marks : List Bool) : SameMarks marks marks := fun _ => rfl

theorem SameMarks.cons (h : SameMarks marks marks') (chosen : Bool) :
    SameMarks (chosen :: marks) (chosen :: marks') := by
  intro d
  cases d with
  | zero => rfl
  | succ d => exact h d

theorem SameMarks.headD (h : SameMarks marks marks') :
    marks.headD false = marks'.headD false := by
  have hzero := h 0
  cases marks <;> cases marks' <;> exact hzero

theorem Renaming.leads_eq (ρ : Renaming) (marks : List Bool) (id : Nat) :
    ρ.leads marks id = (ρ.distances[id]?.map fun d => (marks[d]?).getD false).getD false := by
  unfold Renaming.leads
  cases ρ.distances[id]? <;> rfl

theorem SameMarks.leads (h : SameMarks marks marks') (ρ : Renaming) (id : Nat) :
    ρ.leads marks id = ρ.leads marks' id := by
  have hfun : (fun d : Nat => (marks[d]?).getD false) = fun d => (marks'[d]?).getD false :=
    funext h
  rw [ρ.leads_eq, ρ.leads_eq, hfun]

theorem SameMarks.reference (h : SameMarks marks marks') (ref : Reference) :
    ref.rename ρ marks = ref.rename ρ marks' := by
  rw [Reference.rename, Reference.rename, h.leads]

@[simp] theorem Renaming.name_false (ρ : Renaming) (name : String) : ρ.name false name = name := by
  simp [Renaming.name]

@[simp] theorem Token.rename_false (ρ : Renaming) (t : Token) : t.rename ρ false = t := by
  simp [Token.rename]

theorem Token.map_rename_false (ρ : Renaming) (ts : List Token) :
    ts.map (Token.rename ρ false) = ts := by
  induction ts with
  | nil => rfl
  | cons t ts ih => rw [List.map_cons, Token.rename_false, ih]

theorem Reference.rename_nil (ρ : Renaming) (ref : Reference) : ref.rename ρ [] = ref := by
  have hleads : ρ.leads [] ref.id = false := by
    rw [ρ.leads_eq]
    cases ρ.distances[ref.id]? <;> rfl
  rw [Reference.rename, hleads, Token.rename_false]

mutual

theorem Expr.rename_congr (h : SameMarks marks marks') (e : Expr) :
    e.rename ρ marks = e.rename ρ marks' := by
  cases e with
  | constant _ | this _ | super _ _ => rfl
  | grouping e | unary _ e | get e _ => simp only [Expr.rename, Expr.rename_congr h e]
  | binary l _ r | logical l _ r | set l _ r =>
    simp only [Expr.rename, Expr.rename_congr h l, Expr.rename_congr h r]
  | «variable» ref => simp only [Expr.rename, h.reference]
  | assign target e => simp only [Expr.rename, h.reference, Expr.rename_congr h e]
  | call f _ es => simp only [Expr.rename, Expr.rename_congr h f, Expr.renameAll_congr h es]

theorem Expr.renameAll_congr (h : SameMarks marks marks') (es : List Expr) :
    Expr.renameAll ρ marks es = Expr.renameAll ρ marks' es := by
  cases es with
  | nil => rfl
  | cons e es => simp only [Expr.renameAll, Expr.rename_congr h e, Expr.renameAll_congr h es]

end

mutual

theorem Expr.rename_nil (e : Expr) : e.rename ρ [] = e := by
  cases e with
  | constant _ | this _ | super _ _ => rfl
  | grouping e | unary _ e | get e _ => simp only [Expr.rename, Expr.rename_nil e]
  | binary l _ r | logical l _ r | set l _ r =>
    simp only [Expr.rename, Expr.rename_nil l, Expr.rename_nil r]
  | «variable» ref => simp only [Expr.rename, Reference.rename_nil]
  | assign target e => simp only [Expr.rename, Reference.rename_nil, Expr.rename_nil e]
  | call f _ es => simp only [Expr.rename, Expr.rename_nil f, Expr.renameAll_nil es]

theorem Expr.renameAll_nil (es : List Expr) : Expr.renameAll ρ [] es = es := by
  cases es with
  | nil => rfl
  | cons e es => simp only [Expr.renameAll, Expr.rename_nil e, Expr.renameAll_nil es]

end

/-- No scope is chosen. -/
abbrev Unmarked (marks : List Bool) : Prop := SameMarks marks []

theorem Unmarked.cons (h : Unmarked marks) : Unmarked (false :: marks) := by
  intro d
  cases d with
  | zero => rfl
  | succ d => exact h d

theorem Unmarked.expr (h : Unmarked marks) (e : Expr) : e.rename ρ marks = e :=
  (Expr.rename_congr h e).trans (Expr.rename_nil e)

mutual

theorem Stmt.rename_unmarked {marks : List Bool} (h : Unmarked marks) (s : Stmt) :
    s.rename ρ marks = s := by
  have hexpr (e : Expr) : e.rename ρ marks = e := h.expr e
  have hhead : marks.headD false = false := h.headD
  cases s with
  | expression e | print e => simp only [Stmt.rename, hexpr]
  | var name initial =>
    cases initial <;> simp only [Stmt.rename, hhead, Token.rename_false, hexpr]
  | block body => simp only [Stmt.rename, Stmt.renameAll_unmarked h.cons body]
  | branch c s negative =>
    cases negative with
    | none => simp only [Stmt.rename, hexpr, Stmt.rename_unmarked h s]
    | some t => simp only [Stmt.rename, hexpr, Stmt.rename_unmarked h s, Stmt.rename_unmarked h t]
  | loop c s => simp only [Stmt.rename, hexpr, Stmt.rename_unmarked h s]
  | function d => simp only [Stmt.rename, FunctionDecl.rename_unmarked h d]
  | cls name superclass methods =>
    cases superclass with
    | none => simp only [Stmt.rename, FunctionDecl.renameAll_unmarked h.cons methods]
    | some superclass =>
      have hsuperclass : superclass.rename ρ marks = superclass :=
        (h.reference superclass).trans (Reference.rename_nil ρ superclass)
      simp only [Stmt.rename, hsuperclass, FunctionDecl.renameAll_unmarked h.cons.cons methods]
  | ret keyword value => cases value <;> simp only [Stmt.rename, hexpr]

theorem Stmt.renameAll_unmarked {marks : List Bool} (h : Unmarked marks) (ss : List Stmt) :
    Stmt.renameAll ρ marks ss = ss := by
  cases ss with
  | nil => rfl
  | cons s ss => simp only [Stmt.renameAll, Stmt.rename_unmarked h s, Stmt.renameAll_unmarked h ss]

theorem FunctionDecl.rename_unmarked {marks : List Bool} (h : Unmarked marks) (d : FunctionDecl) :
    d.rename ρ marks = d := by
  cases d with
  | mk name parameters body =>
    simp only [FunctionDecl.rename, Stmt.renameAll_unmarked h.cons body]

theorem FunctionDecl.renameAll_unmarked {marks : List Bool} (h : Unmarked marks)
    (ds : List FunctionDecl) : FunctionDecl.renameAll ρ marks ds = ds := by
  cases ds with
  | nil => rfl
  | cons d ds =>
    simp only [FunctionDecl.renameAll, FunctionDecl.rename_unmarked h d,
      FunctionDecl.renameAll_unmarked h ds]

end

/-! ### Renamed programs are alike -/

/-- No function or class takes the old name in a chosen scope. -/
def Stmt.Spares (ρ : Renaming) (chosen : Bool) (s : Stmt) : Prop :=
  chosen = true → ∀ t ∈ s.declared?, t.lexeme = ρ.old → ∃ initial, s = .var t initial

theorem Stmt.spares_of_none {chosen : Bool} {s : Stmt} (h : s.declared? = none) :
    s.Spares ρ chosen := by
  intro _ t ht
  rw [h] at ht
  cases ht

mutual

theorem Stmt.alike_rename {marks marks' : List Bool} (hmarks : SameMarks marks marks') (s : Stmt)
    (hshape : s.Shaped) (hlacks : s.Lacks ρ.new) (hspares : s.Spares ρ (marks.headD false)) :
    Stmt.Alike ρ marks s (s.rename ρ marks') := by
  have hexpr (e : Expr) : e.rename ρ marks' = e.rename ρ marks := (Expr.rename_congr hmarks e).symm
  cases s with
  | expression e =>
    rw [Stmt.rename, hexpr]
    exact .expression ⟨hshape, hlacks⟩
  | print e =>
    rw [Stmt.rename, hexpr]
    exact .print ⟨hshape, hlacks⟩
  | var name initial =>
    cases initial with
    | none =>
      rw [Stmt.rename, ← hmarks.headD]
      exact .declare hlacks
    | some e =>
      rw [Stmt.rename, ← hmarks.headD, hexpr]
      exact .var hlacks.1 ⟨hshape.2, hlacks.2⟩
  | block body =>
    rw [Stmt.rename]
    exact .block false (Stmt.alikeAll_rename (hmarks.cons false) body hshape hlacks
      (fun _ _ h => nomatch h))
  | branch c s negative =>
    cases negative with
    | none =>
      obtain ⟨hc, hs, hdeclared⟩ := hshape
      rw [Stmt.rename, hexpr]
      exact .ifThen ⟨hc, hlacks.1⟩
        (Stmt.alike_rename hmarks s hs hlacks.2 (Stmt.spares_of_none hdeclared))
    | some t =>
      obtain ⟨hc, ⟨hs, hdeclared⟩, ht, hdeclared'⟩ := hshape
      rw [Stmt.rename, hexpr]
      exact .ifElse ⟨hc, hlacks.1⟩
        (Stmt.alike_rename hmarks s hs hlacks.2.1 (Stmt.spares_of_none hdeclared))
        (Stmt.alike_rename hmarks t ht hlacks.2.2 (Stmt.spares_of_none hdeclared'))
  | loop c s =>
    obtain ⟨hc, hs, hdeclared⟩ := hshape
    rw [Stmt.rename, hexpr]
    exact .loop ⟨hc, hlacks.1⟩
      (Stmt.alike_rename hmarks s hs hlacks.2 (Stmt.spares_of_none hdeclared))
  | function d =>
    rw [Stmt.rename]
    refine .function ⟨hlacks.1, fun hchosen hold => ?_⟩
      (FunctionDecl.alike_rename hmarks d hshape.2 hlacks.2)
    obtain ⟨_, hvar⟩ := hspares hchosen d.name rfl hold
    cases hvar
  | cls name superclass methods =>
    have hkeeps (hnew : name.lexeme ≠ ρ.new) : name.Keeps ρ (marks.headD false) := by
      refine ⟨hnew, fun hchosen hold => ?_⟩
      obtain ⟨_, hvar⟩ := hspares hchosen name rfl hold
      cases hvar
    cases superclass with
    | none =>
      rw [Stmt.rename]
      exact .plainClass (hkeeps hlacks.1)
        (FunctionDecl.alikeAll_rename (hmarks.cons false) methods hshape.2.2 hlacks.2)
    | some superclass =>
      rw [Stmt.rename, ← hmarks.reference]
      exact .subclass (hkeeps hlacks.1) hlacks.2.1
        (FunctionDecl.alikeAll_rename ((hmarks.cons false).cons false) methods hshape.2.2
          hlacks.2.2)
  | ret keyword value =>
    cases value with
    | none =>
      rw [Stmt.rename]
      exact .ret
    | some e =>
      rw [Stmt.rename, hexpr]
      exact .retValue ⟨hshape, hlacks⟩

theorem Stmt.alikeAll_rename {marks marks' : List Bool} (hmarks : SameMarks marks marks')
    (ss : List Stmt) (hshape : Stmt.ShapedAll ss) (hlacks : Stmt.LacksAll ρ.new ss)
    (hspares : ∀ s ∈ ss, s.Spares ρ (marks.headD false)) :
    Stmt.AlikeAll ρ marks ss (Stmt.renameAll ρ marks' ss) := by
  cases ss with
  | nil => exact .nil
  | cons s ss =>
    obtain ⟨hs, hss⟩ := List.forall_mem_cons.1 hspares
    exact .cons (Stmt.alike_rename hmarks s hshape.1 hlacks.1 hs)
      (Stmt.alikeAll_rename hmarks ss hshape.2 hlacks.2 hss)

theorem FunctionDecl.alike_rename {marks marks' : List Bool} (hmarks : SameMarks marks marks')
    (d : FunctionDecl) (hshape : d.Shaped) (hlacks : d.Lacks ρ.new) :
    FunctionDecl.Alike ρ marks d (d.rename ρ marks') := by
  cases d with
  | mk name parameters body =>
    have hbody := Stmt.alikeAll_rename (hmarks.cons false) body hshape.2 hlacks.2
      (fun _ _ h => nomatch h)
    have halike : FunctionDecl.Alike ρ marks (.mk name parameters body)
        (.mk name (parameters.map (Token.rename ρ false)) _) := .mk false hlacks.1 hbody
    rwa [Token.map_rename_false] at halike

theorem FunctionDecl.alikeAll_rename {marks marks' : List Bool} (hmarks : SameMarks marks marks')
    (ds : List FunctionDecl) (hshape : FunctionDecl.ShapedAll ds)
    (hlacks : FunctionDecl.LacksAll ρ.new ds) :
    FunctionDecl.AlikeAll ρ marks ds (FunctionDecl.renameAll ρ marks' ds) := by
  cases ds with
  | nil => exact .nil
  | cons d ds =>
    exact .cons (FunctionDecl.alike_rename hmarks d hshape.1 hlacks.1)
      (FunctionDecl.alikeAll_rename hmarks ds hshape.2 hlacks.2)

end

/-- What lies off the way to the renamed declaration is like itself. -/
theorem Stmt.alike_self (hmarks : Unmarked marks) {s : Stmt} (hshape : s.Shaped)
    (hlacks : s.Lacks ρ.new) : Stmt.Alike ρ marks s s := by
  have h := Stmt.alike_rename (SameMarks.refl marks) s hshape hlacks
    fun hchosen => nomatch hmarks.headD.symm.trans hchosen
  rwa [Stmt.rename_unmarked hmarks] at h

theorem Stmt.alikeAll_self (hmarks : Unmarked marks) {ss : List Stmt}
    (hshape : Stmt.ShapedAll ss) (hlacks : Stmt.LacksAll ρ.new ss) :
    Stmt.AlikeAll ρ marks ss ss := by
  have h := Stmt.alikeAll_rename (SameMarks.refl marks) ss hshape hlacks
    fun _ _ hchosen => nomatch hmarks.headD.symm.trans hchosen
  rwa [Stmt.renameAll_unmarked hmarks] at h

theorem FunctionDecl.alike_self (hmarks : Unmarked marks) {d : FunctionDecl} (hshape : d.Shaped)
    (hlacks : d.Lacks ρ.new) : FunctionDecl.Alike ρ marks d d := by
  have h := FunctionDecl.alike_rename (SameMarks.refl marks) d hshape hlacks
  rwa [FunctionDecl.rename_unmarked hmarks] at h

theorem FunctionDecl.alikeAll_self (hmarks : Unmarked marks) {ds : List FunctionDecl}
    (hshape : FunctionDecl.ShapedAll ds) (hlacks : FunctionDecl.LacksAll ρ.new ds) :
    FunctionDecl.AlikeAll ρ marks ds ds := by
  have h := FunctionDecl.alikeAll_rename (SameMarks.refl marks) ds hshape hlacks
  rwa [FunctionDecl.renameAll_unmarked hmarks] at h

/-- In the scope of a variable nothing else has its name. -/
theorem Stmt.spares_of_variable {R : Recorded} {fn : FunctionContext} {ctx : Context}
    {body : List Stmt} (hbound : Stmt.BoundAll R fn ctx body) (hne : ctx.scopes ≠ [])
    (hvariable : Stmt.DeclaresVariable ρ.old body) : ∀ s ∈ body, s.Spares ρ true := by
  intro s hs _ t ht hold
  obtain ⟨t', initial, hmem, hname⟩ := hvariable
  obtain rfl := Stmt.BoundAll.declared_once hbound hne hs hmem ht rfl (hold.trans hname.symm)
  obtain rfl : t' = t := by simpa [Stmt.declared?] using ht
  exact ⟨initial, rfl⟩

/-- In the scope of a parameter no statement declares its name. -/
theorem Stmt.spares_of_parameter {R : Recorded} {fn : FunctionContext} {ctx : Context}
    {body : List Stmt} {parameters : List Token}
    (hbound : Stmt.BoundAll R fn (ctx.enter (parameterScope parameters)) body)
    (hparameter : ∃ p ∈ parameters, p.lexeme = ρ.old) : ∀ s ∈ body, s.Spares ρ true := by
  intro s hs _ t ht hold
  obtain ⟨p, hp, hname⟩ := hparameter
  refine absurd (hold.trans hname.symm) (Stmt.BoundAll.not_declared hbound ?_ hs ht)
  exact contains_parameterScope hp

mutual

/-- A renamed declaration makes programs that are alike. -/
theorem Stmt.Renamed.alike {R : Recorded} {marks : List Bool} (hmarks : Unmarked marks)
    {fn : FunctionContext} {ctx : Context} (s : Stmt) {s' : Stmt} (h : Stmt.Renamed ρ s s')
    (hshape : s.Shaped) (hlacks : s.Lacks ρ.new) (hbound : s.Bound R fn ctx) :
    Stmt.Alike ρ marks s s' := by
  have hexpr (e : Expr) : e.rename ρ marks = e := hmarks.expr e
  cases h with
  | here h =>
    refine .block true (Stmt.alikeAll_rename (SameMarks.cons hmarks true) _ hshape hlacks ?_)
    exact Stmt.spares_of_variable hbound (by simp [Context.enter]) h
  | block h => exact .block false (Stmt.RenamedAll.alike hmarks.cons _ h hshape hlacks hbound)
  | @positive c s s' t h =>
    cases t with
    | none =>
      have halike := Stmt.Alike.ifThen ⟨hshape.1, hlacks.1⟩
        (Stmt.Renamed.alike hmarks s h hshape.2.1 hlacks.2 hbound.2.1)
      rwa [hexpr] at halike
    | some t =>
      have halike := Stmt.Alike.ifElse ⟨hshape.1, hlacks.1⟩
        (Stmt.Renamed.alike hmarks s h hshape.2.1.1 hlacks.2.1 hbound.2.1.1)
        (Stmt.alike_self hmarks hshape.2.2.1 hlacks.2.2)
      rwa [hexpr] at halike
  | @negative c s t t' h =>
    have halike := Stmt.Alike.ifElse ⟨hshape.1, hlacks.1⟩
      (Stmt.alike_self hmarks hshape.2.1.1 hlacks.2.1)
      (Stmt.Renamed.alike hmarks t h hshape.2.2.1 hlacks.2.2 hbound.2.2.1)
    rwa [hexpr] at halike
  | @loop c s s' h =>
    have halike := Stmt.Alike.loop ⟨hshape.1, hlacks.1⟩
      (Stmt.Renamed.alike hmarks s h hshape.2.1 hlacks.2 hbound.2.1)
    rwa [hexpr] at halike
  | @function d d' h =>
    refine .function ⟨hlacks.1, fun hchosen => nomatch hmarks.headD.symm.trans hchosen⟩ ?_
    exact FunctionDecl.Renamed.alike hmarks d h hshape.2 hlacks.2 hbound.2
  | @cls name superclass methods methods' h =>
    have hkeeps (hnew : name.lexeme ≠ ρ.new) : name.Keeps ρ (marks.headD false) :=
      ⟨hnew, fun hchosen => nomatch hmarks.headD.symm.trans hchosen⟩
    cases superclass with
    | none =>
      exact .plainClass (hkeeps hlacks.1)
        (FunctionDecl.RenamedAll.alike hmarks.cons methods h hshape.2.2 hlacks.2 hbound.2)
    | some superclass =>
      have halike := Stmt.Alike.subclass (hkeeps hlacks.1) hlacks.2.1
        (FunctionDecl.RenamedAll.alike hmarks.cons.cons methods h hshape.2.2 hlacks.2.2
          hbound.2.2.2.2)
      have hsuperclass : superclass.rename ρ marks = superclass :=
        (hmarks.reference superclass).trans (Reference.rename_nil ρ superclass)
      rwa [hsuperclass] at halike
termination_by structural s

theorem Stmt.RenamedAll.alike {R : Recorded} {marks : List Bool} (hmarks : Unmarked marks)
    {fn : FunctionContext} {ctx : Context} (ss : List Stmt) {ss' : List Stmt}
    (h : Stmt.RenamedAll ρ ss ss') (hshape : Stmt.ShapedAll ss) (hlacks : Stmt.LacksAll ρ.new ss)
    (hbound : Stmt.BoundAll R fn ctx ss) : Stmt.AlikeAll ρ marks ss ss' := by
  cases h with
  | @head s s' ss h =>
    exact .cons (Stmt.Renamed.alike hmarks s h hshape.1 hlacks.1 hbound.1)
      (Stmt.alikeAll_self hmarks hshape.2 hlacks.2)
  | @tail s ss ss' h =>
    exact .cons (Stmt.alike_self hmarks hshape.1 hlacks.1)
      (Stmt.RenamedAll.alike hmarks ss h hshape.2 hlacks.2 hbound.2)
termination_by structural ss

theorem FunctionDecl.Renamed.alike {R : Recorded} {marks : List Bool} (hmarks : Unmarked marks)
    {fn : FunctionContext} {ctx : Context} (d : FunctionDecl) {d' : FunctionDecl}
    (h : FunctionDecl.Renamed ρ d d') (hshape : d.Shaped) (hlacks : d.Lacks ρ.new)
    (hbound : d.Bound R fn ctx) : FunctionDecl.Alike ρ marks d d' := by
  cases h with
  | here h =>
    refine .mk true hlacks.1
      (Stmt.alikeAll_rename (SameMarks.cons hmarks true) _ hshape.2 hlacks.2 ?_)
    rcases h with hparameter | hvariable
    · exact Stmt.spares_of_parameter hbound.2.2 hparameter
    · exact Stmt.spares_of_variable hbound.2.2 (by simp [Context.enter]) hvariable
  | @body name parameters body body' h =>
    have halike : FunctionDecl.Alike ρ marks (.mk name parameters body)
        (.mk name (parameters.map (Token.rename ρ false)) body') :=
      .mk false hlacks.1 (Stmt.RenamedAll.alike hmarks.cons body h hshape.2 hlacks.2 hbound.2.2)
    rwa [Token.map_rename_false] at halike
termination_by structural d

theorem FunctionDecl.RenamedAll.alike {R : Recorded} {marks : List Bool} (hmarks : Unmarked marks)
    {ctx : Context} (ds : List FunctionDecl) {ds' : List FunctionDecl}
    (h : FunctionDecl.RenamedAll ρ ds ds') (hshape : FunctionDecl.ShapedAll ds)
    (hlacks : FunctionDecl.LacksAll ρ.new ds) (hbound : FunctionDecl.BoundAll R ctx ds) :
    FunctionDecl.AlikeAll ρ marks ds ds' := by
  cases h with
  | @head d d' ds h =>
    exact .cons (FunctionDecl.Renamed.alike hmarks d h hshape.1 hlacks.1 hbound.1)
      (FunctionDecl.alikeAll_self hmarks hshape.2 hlacks.2)
  | @tail d ds ds' h =>
    exact .cons (FunctionDecl.alike_self hmarks hshape.1 hlacks.1)
      (FunctionDecl.RenamedAll.alike hmarks ds h hshape.2 hlacks.2 hbound.2)
termination_by structural ds

end

end ClassScript
