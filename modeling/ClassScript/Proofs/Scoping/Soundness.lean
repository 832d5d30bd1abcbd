import ClassScript.Proofs.Scoping.Resolution

/-! # Analysed programs are bound

If the analysis of a piece of a program finds no error, and the identities of its references are new
and differ, then the piece is bound by what was recorded.
-/
namespace ClassScript

open Analysis (Moves)

namespace Scopes

theorem contains_of_distance? {Γ : Scopes} {name : String} {d : Nat} {scope : Bindings Bool}
    (h : Γ.distance? name = some d) (hd : Γ[d]? = some scope) : scope.contains name = true := by
  obtain ⟨hlt, hcontains, -⟩ := List.findIdx?_eq_some_iff_getElem.1 h
  obtain rfl : Γ[d] = scope := by simpa [hlt] using hd
  exact hcontains

theorem Settled.nil : Settled [] := by simp [Settled]

theorem Settled.cons {scope : Bindings Bool} {Γ : Scopes}
    (hscope : ∀ name readable, scope.get? name = some readable → readable = true)
    (hΓ : Γ.Settled) : Settled (scope :: Γ) :=
  List.forall_mem_cons.2 ⟨hscope, hΓ⟩

theorem Settled.tail {Γ : Scopes} (h : Γ.Settled) : Settled Γ.tail :=
  fun scope hscope => h scope (List.mem_of_mem_tail hscope)

theorem Settled.mark {Γ : Scopes} (h : Settled Γ.tail) {name : String}
    (hhead : ∀ other readable, other ≠ name → Γ.innermost? other = some readable →
      readable = true) : (Γ.mark name true).Settled := by
  cases Γ with
  | nil => exact h
  | cons scope Γ =>
    refine Settled.cons (fun other readable hget => ?_) h
    rw [Bindings.get?_insert] at hget
    split at hget
    · simpa using hget.symm
    next hne => exact hhead other readable hne hget

theorem Settled.markTrue {Γ : Scopes} (h : Γ.Settled) (name : String) :
    (Γ.mark name true).Settled := by
  refine Settled.mark h.tail fun other readable _ hget => ?_
  cases Γ with
  | nil => cases hget
  | cons scope Γ => exact h scope List.mem_cons_self other readable hget

theorem Settled.after {Γ : Scopes} (h : Γ.Settled) (s : Stmt) : (Γ.after s).Settled := by
  unfold Scopes.after
  split
  · exact h
  · exact h.markTrue _

theorem readable_of_settled {Γ : Scopes} {name : String} (h : Settled Γ.tail)
    (hinnermost : Γ.innermost? name ≠ some false) : Γ.Readable name := by
  intro d scope hd hscope
  have hcontains := contains_of_distance? hd hscope
  obtain ⟨readable, hget⟩ := Option.isSome_iff_exists.1 hcontains
  rw [hget]
  cases Γ with
  | nil => cases hd
  | cons head Γ =>
    cases d with
    | zero =>
      obtain rfl : head = scope := by simpa using hscope
      cases readable with
      | true => rfl
      | false => exact absurd hget hinnermost
    | succ d => rw [h scope (List.mem_of_getElem? hscope) name readable hget]

theorem Settled.readable {Γ : Scopes} (h : Γ.Settled) (name : String) : Γ.Readable name := by
  refine readable_of_settled h.tail fun hfalse => ?_
  cases Γ with
  | nil => cases hfalse
  | cons scope Γ => cases h scope List.mem_cons_self name false hfalse

end Scopes

namespace Context

/-- The scopes of `this` and `super` are open where the class says so. -/
def Opens (ctx : Context) : Prop :=
  match ctx.cls with
  | .outside => True
  | .plain => ∃ d, ctx.scopes.distance? "this" = some d
  | .derived =>
    ∃ d, ctx.scopes.distance? "this" = some d ∧ ctx.scopes.distance? "super" = some (d + 1)

theorem Opens.mark {ctx : Context} (h : ctx.Opens) {name : Token} (hname : name.IsPlain)
    (readable : Bool) : (ctx.mark name readable).Opens := by
  obtain ⟨cls, Γ⟩ := ctx
  have hthis : Scopes.distance? (Scopes.mark Γ name.lexeme readable) "this" =
      Scopes.distance? Γ "this" := Scopes.distance?_mark_of_ne Γ readable (Ne.symm hname.1)
  have hsuper : Scopes.distance? (Scopes.mark Γ name.lexeme readable) "super" =
      Scopes.distance? Γ "super" := Scopes.distance?_mark_of_ne Γ readable (Ne.symm hname.2)
  cases cls with
  | outside => trivial
  | plain => simpa [Opens, Context.mark, hthis] using h
  | derived => simpa [Opens, Context.mark, hthis, hsuper] using h

theorem Opens.after {ctx : Context} (h : ctx.Opens) {s : Stmt}
    (hs : ∀ name ∈ s.declared?, name.IsPlain) : (ctx.after s).Opens := by
  unfold Context.after Scopes.after
  cases hd : s.declared? with
  | none => exact h
  | some name => exact h.mark (hs name hd) true

theorem Opens.enter {ctx : Context} (h : ctx.Opens) {scope : Bindings Bool}
    (hthis : scope.get? "this" = none) (hsuper : scope.get? "super" = none) :
    (ctx.enter scope).Opens := by
  obtain ⟨cls, Γ⟩ := ctx
  have hdistance (name : String) (hname : scope.get? name = none) :
      Scopes.distance? (scope :: Γ) name = (Scopes.distance? Γ name).map (· + 1) := by
    simp [Scopes.distance?_cons, Bindings.contains, hname]
  cases cls with
  | outside => trivial
  | plain =>
    obtain ⟨d, hd⟩ := h
    exact ⟨d + 1, (hdistance _ hthis).trans (by rw [hd]; rfl)⟩
  | derived =>
    obtain ⟨d, hd, hd'⟩ := h
    exact ⟨d + 1, (hdistance _ hthis).trans (by rw [hd]; rfl),
      (hdistance _ hsuper).trans (by rw [hd']; rfl)⟩

theorem settled_enterClass (ctx : Context) (h : ctx.scopes.Settled)
    (superclass : Option Reference) : (ctx.enterClass superclass).scopes.Settled := by
  have himplicit (implicit name : String) (readable : Bool)
      (hget : (implicitScope implicit).get? name = some readable) : readable = true := by
    rw [implicitScope, Bindings.get?_insert] at hget
    split at hget
    · simpa using hget.symm
    · cases hget
  cases superclass with
  | none => exact .cons (himplicit _) h
  | some superclass => exact .cons (himplicit _) (.cons (himplicit _) h)

theorem opens_enterClass (ctx : Context) (superclass : Option Reference) :
    (ctx.enterClass superclass).Opens := by
  cases superclass with
  | none => exact ⟨0, rfl⟩
  | some superclass => exact ⟨0, rfl, rfl⟩

end Context

/-- The analysis of a piece with these identities, all of them new, found no error and recorded
what `R` says. -/
structure Finds (R : Recorded) (a : Analysis) (ids : List Nat) (a' : Analysis) : Prop where
  nodup : ids.Nodup
  fresh : ∀ i ∈ ids, a.distances[i]? = none
  quiet : a'.errors = a.errors
  recorded : ∀ i ∈ ids, R i a'.distances[i]?

namespace Finds

variable {R : Recorded} {a a' a'' : Analysis} {xs ys : List Nat} {Γ Γ' : Scopes}

theorem split (h : Finds R a (xs ++ ys) a'') (hx : Moves a xs Γ a') (hy : Moves a' ys Γ' a'') :
    Finds R a xs a' ∧ Finds R a' ys a'' := by
  obtain ⟨hnx, hny, hdisjoint⟩ := List.nodup_append.1 h.nodup
  obtain ⟨hq, hq'⟩ := hx.quiet hy h.quiet
  refine ⟨⟨hnx, fun i hi => h.fresh i (by simp [hi]), hq, fun i hi => ?_⟩,
    ⟨hny, fun i hi => ?_, hq', fun i hi => h.recorded i (by simp [hi])⟩⟩
  · rw [← hy.others i fun hmem => hdisjoint i hi i hmem rfl]
    exact h.recorded i (by simp [hi])
  · rw [hx.others i fun hmem => hdisjoint i hmem i hi rfl]
    exact h.fresh i (by simp [hi])

theorem perm (h : Finds R a xs a') (hperm : xs.Perm ys) : Finds R a ys a' :=
  ⟨hperm.nodup_iff.1 h.nodup, fun i hi => h.fresh i (hperm.mem_iff.2 hi), h.quiet,
    fun i hi => h.recorded i (hperm.mem_iff.2 hi)⟩

theorem record {ref : Reference} (h : Finds R a [ref.id] (a.record ref)) :
    R ref.id (Scopes.distance? a.scopes ref.name.lexeme) := by
  have hrecorded := h.recorded ref.id (by simp)
  have hfresh := h.fresh ref.id (by simp)
  unfold Analysis.record at hrecorded
  rw [← Analysis.distance?_eq]
  split at hrecorded
  next hnone => rwa [hfresh, ← hnone] at hrecorded
  next d hsome => rwa [Std.TreeMap.getElem?_insert_self, ← hsome] at hrecorded

theorem superclass {name : Token} {ref : Reference}
    (h : Finds R a [ref.id] (a.enterSuperclass name ref)) :
    ref.name.lexeme ≠ name.lexeme ∧ R ref.id (Scopes.distance? a.scopes ref.name.lexeme) := by
  have hquiet := h.quiet
  rw [Analysis.enterSuperclass, Analysis.errors_mark] at hquiet
  have hbroken := Analysis.failIf_quiet ((Analysis.errors_record _ _).symm.trans hquiet)
  refine ⟨by simpa using hbroken, Finds.record ⟨h.nodup, h.fresh, ?_, fun i hi => ?_⟩⟩
  · rw [Analysis.errors_record]
  · have hrecorded := h.recorded i hi
    rw [Analysis.enterSuperclass, hbroken, Analysis.distances_mark] at hrecorded
    exact hrecorded

end Finds

section Bound

variable {R : Recorded}

mutual

theorem Expr.bound_of_finds {ctx : Context} (e : Expr) (a : Analysis) (hshape : e.Shaped)
    (hscopes : a.scopes = ctx.scopes) (hopens : ctx.Opens)
    (hsettled : Scopes.Settled ctx.scopes.tail) (h : Finds R a e.ids (e.analyze ctx.cls a)) :
    e.Bound R ctx := by
  cases e with
  | constant value => trivial
  | grouping e | unary _ e | get e _ => exact e.bound_of_finds a hshape hscopes hopens hsettled h
  | binary l _ r | logical l _ r =>
    have hl := l.moves_analyze ctx.cls a
    have hr := r.moves_analyze ctx.cls (l.analyze ctx.cls a)
    obtain ⟨hfl, hfr⟩ := h.split hl hr
    exact ⟨l.bound_of_finds a hshape.1 hscopes hopens hsettled hfl,
      r.bound_of_finds _ hshape.2 (hl.scopes.trans hscopes) hopens hsettled hfr⟩
  | «variable» ref =>
    rw [Expr.analyze] at h
    have hquiet := h.quiet
    rw [Analysis.errors_record] at hquiet
    have hinnermost := Analysis.failIf_quiet hquiet
    rw [hinnermost] at h
    have hrecorded := Finds.record h
    rw [hscopes] at hrecorded
    refine ⟨⟨hshape, hrecorded⟩, Scopes.readable_of_settled hsettled fun hfalse => ?_⟩
    rw [Analysis.innermost?_eq, hscopes, hfalse] at hinnermost
    simp at hinnermost
  | assign target e =>
    have he := e.moves_analyze ctx.cls a
    obtain ⟨hfe, hft⟩ := h.split he ((e.analyze ctx.cls a).moves_record target)
    have hrecorded := hft.record
    rw [he.scopes, hscopes] at hrecorded
    exact ⟨⟨hshape.1, hrecorded⟩, e.bound_of_finds a hshape.2 hscopes hopens hsettled hfe⟩
  | call f _ es =>
    have hf := f.moves_analyze ctx.cls a
    have hes := Expr.moves_analyzeAll ctx.cls es (f.analyze ctx.cls a)
    obtain ⟨hff, hfes⟩ := h.split hf hes
    exact ⟨f.bound_of_finds a hshape.1 hscopes hopens hsettled hff,
      Expr.boundAll_of_finds es _ hshape.2 (hf.scopes.trans hscopes) hopens hsettled hfes⟩
  | set e _ v =>
    have hv := v.moves_analyze ctx.cls a
    have he := e.moves_analyze ctx.cls (v.analyze ctx.cls a)
    obtain ⟨hfv, hfe⟩ := (h.perm List.perm_append_comm).split hv he
    exact ⟨e.bound_of_finds _ hshape.1 (hv.scopes.trans hscopes) hopens hsettled hfe,
      v.bound_of_finds a hshape.2 hscopes hopens hsettled hfv⟩
  | this ref =>
    rw [Expr.analyze] at h
    split at h
    · exact absurd h.quiet (a.fail_ne _ _)
    next hcls =>
      have hrecorded := h.record
      rw [hshape, hscopes] at hrecorded
      have hthis : ∃ d, ctx.scopes.distance? "this" = some d := by
        obtain ⟨cls, Γ⟩ := ctx
        cases cls with
        | outside => exact absurd rfl hcls
        | plain => exact hopens
        | derived => exact hopens.imp fun d hd => hd.1
      obtain ⟨d, hd⟩ := hthis
      exact ⟨hshape, hcls, d, hd, hd ▸ hrecorded⟩
  | super ref _ =>
    obtain ⟨cls, Γ⟩ := ctx
    cases cls with
    | outside | plain =>
      have hquiet := h.quiet
      simp only [Expr.analyze, ClassContext.superFault?, Analysis.errors_record] at hquiet
      exact absurd hquiet (a.fail_ne _ _)
    | derived =>
      have hrecorded := Finds.record h
      rw [hshape, hscopes] at hrecorded
      obtain ⟨d, hthis, hsuper⟩ := hopens
      exact ⟨hshape, rfl, d, hthis, hsuper, hsuper ▸ hrecorded⟩

theorem Expr.boundAll_of_finds {ctx : Context} (es : List Expr) (a : Analysis)
    (hshape : Expr.ShapedAll es) (hscopes : a.scopes = ctx.scopes) (hopens : ctx.Opens)
    (hsettled : Scopes.Settled ctx.scopes.tail)
    (h : Finds R a (Expr.idsAll es) (Expr.analyzeAll ctx.cls es a)) : Expr.BoundAll R ctx es := by
  cases es with
  | nil => trivial
  | cons e es =>
    have he := e.moves_analyze ctx.cls a
    have hes := Expr.moves_analyzeAll ctx.cls es (e.analyze ctx.cls a)
    obtain ⟨hfe, hfes⟩ := h.split he hes
    exact ⟨e.bound_of_finds a hshape.1 hscopes hopens hsettled hfe,
      Expr.boundAll_of_finds es _ hshape.2 (he.scopes.trans hscopes) hopens hsettled hfes⟩

end

theorem Analysis.declare_quiet {a : Analysis} {name : Token}
    (h : (a.declare name).errors = a.errors) :
    Scopes.innermost? a.scopes name.lexeme = none ∧
      (a.declare name).scopes = Scopes.mark a.scopes name.lexeme false := by
  unfold Analysis.declare at h ⊢
  split at h
  · exact absurd h (a.fail_ne _ _)
  next hnone =>
    rw [if_neg hnone]
    exact ⟨by simpa [Analysis.innermost?_eq] using hnone, scopes_mark _ _ _⟩

theorem Analysis.introduce_quiet {a : Analysis} {name : Token}
    (h : (a.introduce name).errors = a.errors) :
    Scopes.innermost? a.scopes name.lexeme = none := by
  rw [introduce, define, errors_mark] at h
  exact (declare_quiet h).1

/-- Parameters that were introduced without an error have different names. -/
theorem Analysis.parameters_quiet (parameters : List Token) {a : Analysis} {scope : Bindings Bool}
    {Γ : Scopes} (hscopes : a.scopes = scope :: Γ)
    (h : (parameters.foldl Analysis.introduce a).errors = a.errors) :
    (∀ p ∈ parameters, scope.get? p.lexeme = none) ∧ (parameters.map Token.lexeme).Nodup := by
  induction parameters generalizing a scope with
  | nil => simp
  | cons p parameters ih =>
    have hp := a.moves_introduce p
    have hscopes' : (a.introduce p).scopes = scope.insert p.lexeme true :: Γ := by
      rw [hp.scopes, hscopes]
      rfl
    obtain ⟨hq, hq'⟩ := hp.quiet ((a.introduce p).moves_parameters parameters hscopes') h
    have hnone := introduce_quiet hq
    rw [hscopes] at hnone
    obtain ⟨hothers, hnodup⟩ := ih hscopes' hq'
    have hne (q : Token) (hmem : q ∈ parameters) :
        q.lexeme ≠ p.lexeme ∧ scope.get? q.lexeme = none := by
      have := hothers q hmem
      rw [Bindings.get?_insert] at this
      split at this
      · cases this
      next hne => exact ⟨hne, this⟩
    refine ⟨List.forall_mem_cons.2 ⟨hnone, fun q hmem => (hne q hmem).2⟩, ?_⟩
    rw [List.map_cons, List.nodup_cons]
    refine ⟨fun hmem => ?_, hnodup⟩
    obtain ⟨q, hq, hlexeme⟩ := List.mem_map.1 hmem
    exact (hne q hq).1 hlexeme

theorem Stmt.Shaped.declared_plain {s : Stmt} (h : s.Shaped) :
    ∀ name ∈ s.declared?, name.IsPlain := by
  cases s <;> simp only [Stmt.declared?, Option.mem_def, reduceCtorEq, false_implies, implies_true,
    Option.some.injEq, forall_eq']
  all_goals exact h.1

/-- The name of a class without a superclass is new, and its methods are analysed inside `this`. -/
theorem Finds.plainClass {fn : FunctionContext} {cls : ClassContext} {a : Analysis} {name : Token}
    {methods : List FunctionDecl} (hmethods : FunctionDecl.ShapedAll methods)
    (h : Finds R a (Stmt.cls name none methods).ids
      ((Stmt.cls name none methods).analyze fn cls a)) :
    Scopes.innermost? a.scopes name.lexeme = none ∧
      ∃ b, b.scopes = implicitScope "this" :: Scopes.mark a.scopes name.lexeme true ∧
        Finds R b (FunctionDecl.idsAll methods) (FunctionDecl.analyzeAll .plain methods b) := by
  let b := (a.introduce name).openScope.mark "this" true
  have hname := a.moves_introduce name
  have hopen := (a.introduce name).moves_open "this"
  have hds := FunctionDecl.moves_analyzeAll .plain methods b hmethods
  have hall : Finds R a ([] ++ ([] ++ FunctionDecl.idsAll methods))
      (FunctionDecl.analyzeAll .plain methods b) :=
    ⟨h.nodup, h.fresh, h.quiet, h.recorded⟩
  obtain ⟨hfname, hfrest⟩ := hall.split hname (hopen.trans hds)
  obtain ⟨-, hfds⟩ := hfrest.split hopen hds
  refine ⟨Analysis.introduce_quiet hfname.quiet, b, ?_, hfds⟩
  rw [hopen.scopes, hname.scopes]

/-- A superclass has another name than the class and is looked up before `super` is opened. -/
theorem Finds.subclass {fn : FunctionContext} {cls : ClassContext} {a : Analysis} {name : Token}
    {superclass : Reference} {methods : List FunctionDecl}
    (hmethods : FunctionDecl.ShapedAll methods)
    (h : Finds R a (Stmt.cls name (some superclass) methods).ids
      ((Stmt.cls name (some superclass) methods).analyze fn cls a)) :
    Scopes.innermost? a.scopes name.lexeme = none ∧ superclass.name.lexeme ≠ name.lexeme ∧
      R superclass.id (Scopes.distance? a.scopes superclass.name.lexeme) ∧
      ∃ b, b.scopes = implicitScope "this" :: implicitScope "super" ::
          Scopes.mark a.scopes name.lexeme true ∧
        Finds R b (FunctionDecl.idsAll methods) (FunctionDecl.analyzeAll .derived methods b) := by
  let b := ((a.introduce name).enterSuperclass name superclass).openScope.mark "this" true
  have hname := a.moves_introduce name
  have hsuper := (a.introduce name).moves_enterSuperclass name superclass
  have hopen := ((a.introduce name).enterSuperclass name superclass).moves_open "this"
  have hds := FunctionDecl.moves_analyzeAll .derived methods b hmethods
  have hall : Finds R a ([] ++ ([superclass.id] ++ ([] ++ FunctionDecl.idsAll methods)))
      (FunctionDecl.analyzeAll .derived methods b) :=
    ⟨h.nodup, h.fresh, h.quiet, h.recorded⟩
  obtain ⟨hfname, hfrest⟩ := hall.split hname (hsuper.trans (hopen.trans hds))
  obtain ⟨hfsuper, hfrest⟩ := hfrest.split hsuper (hopen.trans hds)
  obtain ⟨-, hfds⟩ := hfrest.split hopen hds
  obtain ⟨hne, hrecorded⟩ := hfsuper.superclass
  rw [hname.scopes, Scopes.distance?_mark_of_ne _ _ hne] at hrecorded
  refine ⟨Analysis.introduce_quiet hfname.quiet, hne, hrecorded, b, ?_, hfds⟩
  rw [hopen.scopes, hsuper.scopes, hname.scopes]

/-- A value is returned from inside a function that is no initializer. -/
theorem Finds.returned {fn : FunctionContext} {cls : ClassContext} {a : Analysis} {keyword : Token}
    {e : Expr} (h : Finds R a e.ids ((Stmt.ret keyword (some e)).analyze fn cls a)) :
    fn ≠ .outside ∧ fn ≠ .initializer ∧
      ∃ b, b.scopes = a.scopes ∧ Finds R b e.ids (e.analyze cls b) := by
  let a' := a.failIf (fn == .outside) keyword .returnOutside
  let b := a'.failIf (fn == .initializer) keyword .returnFromInitializer
  have houtside : Moves a [] a.scopes a' :=
    .quick (a.errors_failIf _ _ _) (a.distances_failIf _ _ _) (a.scopes_failIf _ _ _)
  have hinitializer : Moves a' [] a'.scopes b :=
    .quick (a'.errors_failIf _ _ _) (a'.distances_failIf _ _ _) (a'.scopes_failIf _ _ _)
  have he := e.moves_analyze cls b
  have hall : Finds R a ([] ++ ([] ++ e.ids)) (e.analyze cls b) := h
  obtain ⟨hfo, hfrest⟩ := hall.split houtside (hinitializer.trans he)
  obtain ⟨hfi, hfe⟩ := hfrest.split hinitializer he
  have hquiet := Analysis.failIf_quiet hfo.quiet
  have hquiet' := Analysis.failIf_quiet hfi.quiet
  refine ⟨fun hfn => by simp [hfn] at hquiet, fun hfn => by simp [hfn] at hquiet', b, ?_, hfe⟩
  exact hinitializer.scopes.trans houtside.scopes

mutual

theorem Stmt.bound_of_finds {fn : FunctionContext} {ctx : Context} (s : Stmt) (a : Analysis)
    (hshape : s.Shaped) (hscopes : a.scopes = ctx.scopes) (hopens : ctx.Opens)
    (hsettled : ctx.scopes.Settled) (h : Finds R a s.ids (s.analyze fn ctx.cls a)) :
    s.Bound R fn ctx := by
  cases s with
  | expression e | print e => exact e.bound_of_finds a hshape hscopes hopens hsettled.tail h
  | var name initial =>
    have hmarked : Finds R a ([] ++ Expr.idsOption initial)
        (Expr.analyzeOption ctx.cls initial (a.declare name)) := by
      refine ⟨h.nodup, h.fresh, ?_, fun i hi => ?_⟩
      · simpa [Stmt.analyze, Analysis.define] using h.quiet
      · simpa [Stmt.analyze, Analysis.define] using h.recorded i hi
    obtain ⟨hdeclare, hinitial⟩ := hmarked.split (a.moves_declare name)
      (Expr.moves_analyzeOption ctx.cls initial (a.declare name))
    obtain ⟨hnone, hscopes'⟩ := Analysis.declare_quiet hdeclare.quiet
    rw [hscopes] at hnone hscopes'
    cases initial with
    | none => exact ⟨hshape.1, hnone⟩
    | some e =>
      have htail : (ctx.scopes.mark name.lexeme false).tail = ctx.scopes.tail := by
        cases ctx.scopes <;> rfl
      refine ⟨⟨hshape.1, hnone⟩, e.bound_of_finds (a.declare name) hshape.2 hscopes'
        (hopens.mark hshape.1 false) ?_ hinitial⟩
      rw [Context.mark, htail]
      exact hsettled.tail
  | block body =>
    refine Stmt.boundAll_of_finds body a.openScope hshape (congrArg _ hscopes)
      (hopens.enter rfl rfl) (Scopes.Settled.cons (by simp) hsettled) ?_
    exact ⟨h.nodup, h.fresh, h.quiet, h.recorded⟩
  | branch c s negative =>
    have hc := c.moves_analyze ctx.cls a
    cases negative with
    | none =>
      obtain ⟨hshapec, hshape, hdeclared⟩ := hshape
      have hs := s.moves_analyze fn ctx.cls (c.analyze ctx.cls a) hshape
      obtain ⟨hfc, hfs⟩ := h.split hc hs
      exact ⟨c.bound_of_finds a hshapec hscopes hopens hsettled.tail hfc,
        s.bound_of_finds _ hshape (hc.scopes.trans hscopes) hopens hsettled hfs, hdeclared⟩
    | some t =>
      obtain ⟨hshapec, ⟨hshape, hdeclared⟩, hshape', hdeclared'⟩ := hshape
      have hs := s.moves_analyze fn ctx.cls (c.analyze ctx.cls a) hshape
      have ht := t.moves_analyze fn ctx.cls (s.analyze fn ctx.cls (c.analyze ctx.cls a)) hshape'
      obtain ⟨hfcs, hft⟩ := h.split (hc.trans hs) ht
      obtain ⟨hfc, hfs⟩ := hfcs.split hc hs
      have hscopes' := hs.scopes
      rw [hc.scopes, Scopes.after, hdeclared] at hscopes'
      exact ⟨c.bound_of_finds a hshapec hscopes hopens hsettled.tail hfc,
        ⟨s.bound_of_finds _ hshape (hc.scopes.trans hscopes) hopens hsettled hfs, hdeclared⟩,
        t.bound_of_finds _ hshape' (hscopes'.trans hscopes) hopens hsettled hft, hdeclared'⟩
  | loop c s =>
    obtain ⟨hshapec, hshape, hdeclared⟩ := hshape
    have hc := c.moves_analyze ctx.cls a
    have hs := s.moves_analyze fn ctx.cls (c.analyze ctx.cls a) hshape
    obtain ⟨hfc, hfs⟩ := h.split hc hs
    exact ⟨c.bound_of_finds a hshapec hscopes hopens hsettled.tail hfc,
      s.bound_of_finds _ hshape (hc.scopes.trans hscopes) hopens hsettled hfs, hdeclared⟩
  | function d =>
    have hname := a.moves_introduce d.name
    have hd := d.moves_analyze .function ctx.cls (a.introduce d.name) hshape.2
    have hall : Finds R a ([] ++ d.ids) (d.analyze .function ctx.cls (a.introduce d.name)) := h
    obtain ⟨hfname, hfd⟩ := hall.split hname hd
    have hnone := Analysis.introduce_quiet hfname.quiet
    rw [hscopes] at hnone hname
    exact ⟨⟨hshape.1, hnone⟩, d.bound_of_finds _ hshape.2 hname.scopes
      (hopens.mark hshape.1 true) (hsettled.markTrue _) hfd⟩
  | cls name superclass methods =>
    obtain ⟨hplain, hplain', hmethods⟩ := hshape
    have hsettled' := (ctx.mark name true).settled_enterClass (hsettled.markTrue _) superclass
    have hopens' := (ctx.mark name true).opens_enterClass superclass
    cases superclass with
    | none =>
      obtain ⟨hnone, b, hb, hfds⟩ := Finds.plainClass hmethods h
      rw [hscopes] at hnone hb
      exact ⟨⟨hplain, hnone⟩,
        FunctionDecl.boundAll_of_finds methods b hmethods hb hopens' hsettled' hfds⟩
    | some superclass =>
      obtain ⟨hnone, hne, hrecorded, b, hb, hfds⟩ := Finds.subclass hmethods h
      rw [hscopes] at hnone hrecorded hb
      exact ⟨⟨hplain, hnone⟩, hne, ⟨hplain' superclass rfl, hrecorded⟩, hsettled.readable _,
        FunctionDecl.boundAll_of_finds methods b hmethods hb hopens' hsettled' hfds⟩
  | ret keyword value =>
    cases value with
    | none =>
      have houtside := Analysis.failIf_quiet h.quiet
      exact fun hfn => by simp [hfn] at houtside
    | some e =>
      obtain ⟨houtside, hinitializer, b, hb, hfe⟩ := Finds.returned h
      exact ⟨houtside, hinitializer,
        e.bound_of_finds b hshape (hb.trans hscopes) hopens hsettled.tail hfe⟩

theorem Stmt.boundAll_of_finds {fn : FunctionContext} {ctx : Context} (ss : List Stmt)
    (a : Analysis) (hshape : Stmt.ShapedAll ss) (hscopes : a.scopes = ctx.scopes)
    (hopens : ctx.Opens) (hsettled : ctx.scopes.Settled)
    (h : Finds R a (Stmt.idsAll ss) (Stmt.analyzeAll fn ctx.cls ss a)) :
    Stmt.BoundAll R fn ctx ss := by
  cases ss with
  | nil => trivial
  | cons s ss =>
    have hs := s.moves_analyze fn ctx.cls a hshape.1
    have hss := Stmt.moves_analyzeAll fn ctx.cls ss (s.analyze fn ctx.cls a) hshape.2
    obtain ⟨hfs, hfss⟩ := h.split hs hss
    rw [hscopes] at hs
    exact ⟨s.bound_of_finds a hshape.1 hscopes hopens hsettled hfs,
      Stmt.boundAll_of_finds ss _ hshape.2 hs.scopes
        (hopens.after hshape.1.declared_plain) (hsettled.after s) hfss⟩

theorem FunctionDecl.bound_of_finds {fn : FunctionContext} {ctx : Context} (d : FunctionDecl)
    (a : Analysis) (hshape : d.Shaped) (hscopes : a.scopes = ctx.scopes) (hopens : ctx.Opens)
    (hsettled : ctx.scopes.Settled) (h : Finds R a d.ids (d.analyze fn ctx.cls a)) :
    d.Bound R fn ctx := by
  cases d with
  | mk name parameters body =>
    have hparameters := a.openScope.moves_parameters parameters rfl
    have hbody := Stmt.moves_analyzeAll fn ctx.cls body
      (parameters.foldl Analysis.introduce a.openScope) hshape.2
    have hopened : Finds R a.openScope ([] ++ Stmt.idsAll body) (Stmt.analyzeAll fn ctx.cls body
        (parameters.foldl Analysis.introduce a.openScope)) :=
      ⟨h.nodup, h.fresh, h.quiet, h.recorded⟩
    obtain ⟨hfp, hfb⟩ := hopened.split hparameters hbody
    obtain ⟨hthis, hsuper⟩ := get?_parameterScope_of_plain hshape.1
    refine ⟨(Analysis.parameters_quiet parameters rfl hfp.quiet).2, hshape.1, ?_⟩
    refine Stmt.boundAll_of_finds body _ hshape.2 ?_ (hopens.enter hthis hsuper) ?_ hfb
    · rw [hparameters.scopes, hscopes]
      rfl
    · exact Scopes.Settled.cons (fun _ _ hget => (get?_parameterScope hget).1) hsettled

theorem FunctionDecl.boundAll_of_finds {ctx : Context} (ds : List FunctionDecl) (a : Analysis)
    (hshape : FunctionDecl.ShapedAll ds) (hscopes : a.scopes = ctx.scopes) (hopens : ctx.Opens)
    (hsettled : ctx.scopes.Settled)
    (h : Finds R a (FunctionDecl.idsAll ds) (FunctionDecl.analyzeAll ctx.cls ds a)) :
    FunctionDecl.BoundAll R ctx ds := by
  cases ds with
  | nil => trivial
  | cons d ds =>
    have hd := d.moves_analyze (methodContext d) ctx.cls a hshape.1
    have hds := FunctionDecl.moves_analyzeAll ctx.cls ds (d.analyze (methodContext d) ctx.cls a)
      hshape.2
    obtain ⟨hfd, hfds⟩ := h.split hd hds
    exact ⟨d.bound_of_finds a hshape.1 hscopes hopens hsettled hfd,
      FunctionDecl.boundAll_of_finds ds _ hshape.2 (hd.scopes.trans hscopes) hopens hsettled hfds⟩

end

end Bound

end ClassScript
