import ClassScript.Proofs.Scoping.Shape
import ClassScript.Proofs.Tree.References

/-! # Braces around statements

A statement that is no declaration may be put into braces of its own, wherever it stands: in a
statement list, as a branch of an `if` or as the body of a loop.
-/
namespace ClassScript

mutual

/-- The second statement is the first one with braces around any number of the statements in it, all
of them no declarations. -/
inductive Stmt.Braced : Stmt → Stmt → Prop where
  | wrap {s t : Stmt} (hs : s.declared? = none) (h : Stmt.Braced s t) : Stmt.Braced s (.block [t])
  | expression (e : Expr) : Stmt.Braced (.expression e) (.expression e)
  | print (e : Expr) : Stmt.Braced (.print e) (.print e)
  | var (name : Token) (initial : Option Expr) : Stmt.Braced (.var name initial) (.var name initial)
  | block {body body' : List Stmt} (h : Stmt.BracedAll body body') :
      Stmt.Braced (.block body) (.block body')
  | ifThen (c : Expr) {s s' : Stmt} (hs : Stmt.Braced s s') :
      Stmt.Braced (.branch c s none) (.branch c s' none)
  | ifElse (c : Expr) {s s' t t' : Stmt} (hs : Stmt.Braced s s') (ht : Stmt.Braced t t') :
      Stmt.Braced (.branch c s (some t)) (.branch c s' (some t'))
  | loop (c : Expr) {s s' : Stmt} (hs : Stmt.Braced s s') : Stmt.Braced (.loop c s) (.loop c s')
  | function {d d' : FunctionDecl} (h : FunctionDecl.Braced d d') :
      Stmt.Braced (.function d) (.function d')
  | cls (name : Token) (superclass : Option Reference) {methods methods' : List FunctionDecl}
      (h : FunctionDecl.BracedAll methods methods') :
      Stmt.Braced (.cls name superclass methods) (.cls name superclass methods')
  | ret (keyword : Token) (value : Option Expr) :
      Stmt.Braced (.ret keyword value) (.ret keyword value)

inductive Stmt.BracedAll : List Stmt → List Stmt → Prop where
  | nil : Stmt.BracedAll [] []
  | cons {s s' : Stmt} {ss ss' : List Stmt} (hs : Stmt.Braced s s') (hss : Stmt.BracedAll ss ss') :
      Stmt.BracedAll (s :: ss) (s' :: ss')

inductive FunctionDecl.Braced : FunctionDecl → FunctionDecl → Prop where
  | mk (name : Token) (parameters : List Token) {body body' : List Stmt}
      (h : Stmt.BracedAll body body') :
      FunctionDecl.Braced (.mk name parameters body) (.mk name parameters body')

inductive FunctionDecl.BracedAll : List FunctionDecl → List FunctionDecl → Prop where
  | nil : FunctionDecl.BracedAll [] []
  | cons {d d' : FunctionDecl} {ds ds' : List FunctionDecl} (hd : FunctionDecl.Braced d d')
      (hds : FunctionDecl.BracedAll ds ds') : FunctionDecl.BracedAll (d :: ds) (d' :: ds')

end

mutual

/-- No braces need be added. -/
theorem Stmt.Braced.refl (s : Stmt) : Stmt.Braced s s := by
  cases s with
  | expression e => exact .expression e
  | print e => exact .print e
  | var name initial => exact .var name initial
  | block body => exact .block (Stmt.BracedAll.refl body)
  | branch c s t =>
    cases t with
    | none => exact .ifThen c (Stmt.Braced.refl s)
    | some t => exact .ifElse c (Stmt.Braced.refl s) (Stmt.Braced.refl t)
  | loop c s => exact .loop c (Stmt.Braced.refl s)
  | function d => exact .function (FunctionDecl.Braced.refl d)
  | cls name superclass methods => exact .cls name superclass (FunctionDecl.BracedAll.refl methods)
  | ret keyword value => exact .ret keyword value

theorem Stmt.BracedAll.refl (ss : List Stmt) : Stmt.BracedAll ss ss := by
  cases ss with
  | nil => exact .nil
  | cons s ss => exact .cons (Stmt.Braced.refl s) (Stmt.BracedAll.refl ss)

theorem FunctionDecl.Braced.refl (d : FunctionDecl) : FunctionDecl.Braced d d := by
  cases d with
  | mk name parameters body => exact .mk name parameters (Stmt.BracedAll.refl body)

theorem FunctionDecl.BracedAll.refl (ds : List FunctionDecl) : FunctionDecl.BracedAll ds ds := by
  cases ds with
  | nil => exact .nil
  | cons d ds => exact .cons (FunctionDecl.Braced.refl d) (FunctionDecl.BracedAll.refl ds)

end

theorem FunctionDecl.Braced.name_eq {d d' : FunctionDecl} (h : FunctionDecl.Braced d d') :
    d'.name = d.name := by
  cases h
  rfl

theorem Stmt.Braced.declared_eq {s t : Stmt} (h : Stmt.Braced s t) :
    t.declared? = s.declared? := by
  cases h with
  | wrap hs _ => exact hs.symm
  | function h => simp only [Stmt.declared?, h.name_eq]
  | _ => rfl

mutual

/-- Braces add no reference, and they leave the shape right. -/
theorem Stmt.Braced.keeps {s : Stmt} (t : Stmt) (h : Stmt.Braced s t) :
    t.ids = s.ids ∧ (s.Shaped → t.Shaped) := by
  cases h with
  | @wrap _ t _ h =>
    obtain ⟨hids, hshape⟩ := Stmt.Braced.keeps t h
    exact ⟨by simp [Stmt.ids, Stmt.idsAll, hids], fun hs => ⟨hshape hs, trivial⟩⟩
  | expression | print | var | ret => exact ⟨rfl, id⟩
  | @block body body' h => exact Stmt.BracedAll.keeps body' h
  | @ifThen c s s' hs =>
    obtain ⟨hids, hshape⟩ := Stmt.Braced.keeps s' hs
    exact ⟨by simp [Stmt.ids, hids], fun h => ⟨h.1, hshape h.2.1, hs.declared_eq.trans h.2.2⟩⟩
  | @ifElse c s s' t t' hs ht =>
    obtain ⟨hids, hshape⟩ := Stmt.Braced.keeps s' hs
    obtain ⟨hids', hshape'⟩ := Stmt.Braced.keeps t' ht
    exact ⟨by simp [Stmt.ids, hids, hids'],
      fun h => ⟨h.1, ⟨hshape h.2.1.1, hs.declared_eq.trans h.2.1.2⟩, hshape' h.2.2.1,
        ht.declared_eq.trans h.2.2.2⟩⟩
  | @loop c s s' hs =>
    obtain ⟨hids, hshape⟩ := Stmt.Braced.keeps s' hs
    exact ⟨by simp [Stmt.ids, hids], fun h => ⟨h.1, hshape h.2.1, hs.declared_eq.trans h.2.2⟩⟩
  | @function d d' h =>
    obtain ⟨hids, hshape⟩ := FunctionDecl.Braced.keeps d' h
    exact ⟨hids, fun hd => ⟨h.name_eq ▸ hd.1, hshape hd.2⟩⟩
  | @cls name superclass methods methods' h =>
    obtain ⟨hids, hshape⟩ := FunctionDecl.BracedAll.keeps methods' h
    refine ⟨?_, fun hs => ⟨hs.1, hs.2.1, hshape hs.2.2⟩⟩
    cases superclass <;> simp [Stmt.ids, hids]
termination_by structural t

theorem Stmt.BracedAll.keeps {ss : List Stmt} (ts : List Stmt) (h : Stmt.BracedAll ss ts) :
    Stmt.idsAll ts = Stmt.idsAll ss ∧ (Stmt.ShapedAll ss → Stmt.ShapedAll ts) := by
  cases h with
  | nil => exact ⟨rfl, id⟩
  | @cons s s' ss ss' hs hss =>
    obtain ⟨hids, hshape⟩ := Stmt.Braced.keeps s' hs
    obtain ⟨hids', hshape'⟩ := Stmt.BracedAll.keeps ss' hss
    exact ⟨by simp [Stmt.idsAll, hids, hids'], fun h => ⟨hshape h.1, hshape' h.2⟩⟩
termination_by structural ts

theorem FunctionDecl.Braced.keeps {d : FunctionDecl} (d' : FunctionDecl)
    (h : FunctionDecl.Braced d d') : d'.ids = d.ids ∧ (d.Shaped → d'.Shaped) := by
  cases h with
  | @mk name parameters body body' h =>
    obtain ⟨hids, hshape⟩ := Stmt.BracedAll.keeps body' h
    exact ⟨hids, fun hd => ⟨hd.1, hshape hd.2⟩⟩
termination_by structural d'

theorem FunctionDecl.BracedAll.keeps {ds : List FunctionDecl} (ds' : List FunctionDecl)
    (h : FunctionDecl.BracedAll ds ds') :
    FunctionDecl.idsAll ds' = FunctionDecl.idsAll ds ∧
      (FunctionDecl.ShapedAll ds → FunctionDecl.ShapedAll ds') := by
  cases h with
  | nil => exact ⟨rfl, id⟩
  | @cons d d' ds ds' hd hds =>
    obtain ⟨hids, hshape⟩ := FunctionDecl.Braced.keeps d' hd
    obtain ⟨hids', hshape'⟩ := FunctionDecl.BracedAll.keeps ds' hds
    exact ⟨by simp [FunctionDecl.idsAll, hids, hids'], fun h => ⟨hshape h.1, hshape' h.2⟩⟩
termination_by structural ds'

end

end ClassScript
