import ClassScript.Proofs.Evaluation.Invariant

/-! # Operations on worlds in order

Every operation that evaluation performs on its world leads to a later world in order, and new
scopes hold what they should.
-/
namespace ClassScript

open Store (Fits Grows Holds)

section Store

variable {R : Recorded} {clean : Prop} {s s' : Store}

/-- The store has grown, and its functions, classes and host functions are what they were. -/
theorem Store.Sound.keep (h : s.Sound R clean) (hgrows : Grows s s')
    (hfunctions : s'.functions = s.functions) (hclasses : s'.classes = s.classes)
    (hnatives : s'.natives = s.natives) : s'.Sound R clean where
  functions i := by
    have hclosure : s'.closure i = s.closure i := by rw [Store.closure, Store.closure, hfunctions]
    rw [hclosure]
    exact (h.functions i).mono hgrows id
  methods i name c hc := by
    have hclass : s'.classOf i = s.classOf i := by rw [Store.classOf, Store.classOf, hclasses]
    rw [hclass] at hc
    exact (h.methods i name c hc).mono hgrows id
  natives i := by
    have hnative : s'.native i = s.native i := by rw [Store.native, Store.native, hnatives]
    rw [hnative]
    exact h.natives i
  global := Nat.lt_of_lt_of_le h.global hgrows.size

/-- A reference in the code of the store has this identity. -/
inductive Store.Bears (s : Store) (id : Nat) : Prop where
  | function {i : Nat} (h : id ∈ (s.closure i).declaration.ids) : Bears s id
  | method {cls : Nat} {name : String} {c : Closure}
      (hc : (name, c) ∈ (s.classOf cls).methods.entries) (h : id ∈ c.declaration.ids) : Bears s id

/-- More may be recorded, and less may be asked of names. -/
theorem Store.Sound.mono {R' : Recorded} {clean' : Prop} (h : s.Sound R clean)
    (hR : ∀ id, s.Bears id → ∀ d, R id d → R' id d) (hclean : clean' → clean) :
    s.Sound R' clean' where
  functions i := by
    obtain ⟨fn, ctx, hfn, hbound, hfits, hinitializer⟩ := h.functions i
    have hbound' := FunctionDecl.Bound.mono _ (fun id hid => hR id (.function hid)) hbound
    exact ⟨fn, ctx, hfn, hbound', hfits.mono (.refl s) hclean, hinitializer⟩
  methods i name c hc := by
    obtain ⟨fn, ctx, hfn, hbound, hfits, hinitializer⟩ := h.methods i name c hc
    have hbound' := FunctionDecl.Bound.mono _ (fun id hid => hR id (.method hc hid)) hbound
    exact ⟨fn, ctx, hfn, hbound', hfits.mono (.refl s) hclean, hinitializer⟩
  natives := h.natives
  global := h.global

theorem Store.Sound.addFunction (h : s.Sound R clean) {c : Closure} (hc : c.Ready R clean s) :
    (s.addFunction c).Sound R clean := by
  have hgrows : Grows s (s.addFunction c) := .ofScopes rfl
  refine ⟨fun i => ?_, fun i name c hc => (h.methods i name c hc).mono hgrows id, h.natives,
    h.global⟩
  rw [Store.closure_addFunction]
  split
  · exact hc.mono hgrows id
  · exact (h.functions i).mono hgrows id

theorem Store.Sound.addClass (h : s.Sound R clean) {c : Class}
    (hc : ∀ name method, (name, method) ∈ c.methods.entries → method.ReadyMethod R clean s) :
    (s.addClass c).Sound R clean := by
  have hgrows : Grows s (s.addClass c) := .ofScopes rfl
  refine ⟨fun i => (h.functions i).mono hgrows id, fun i name method hmethod => ?_, h.natives,
    h.global⟩
  rw [Store.classOf_addClass] at hmethod
  split at hmethod
  · exact (hc name method hmethod).mono hgrows id
  · exact (h.methods i name method hmethod).mono hgrows id

/-- Methods that are inherited are in order too. -/
theorem Store.Sound.method (h : s.Sound R clean) {cls : Nat} {name : String} {c : Closure}
    (hc : s.method? cls name = some c) : c.ReadyMethod R clean s := by
  have hwithin (n cls : Nat) (hc : s.methodWithin? name n cls = some c) :
      c.ReadyMethod R clean s := by
    induction n generalizing cls with
    | zero => cases hc
    | succ n ih =>
      rw [Store.methodWithin?] at hc
      split at hc
      next method hmethod =>
        obtain rfl : method = c := by simpa using hc
        exact h.methods cls name method (Bindings.mem_of_get? hmethod)
      next =>
        obtain ⟨superclass, -, hsuper⟩ := Option.bind_eq_some_iff.1 hc
        exact ih superclass hsuper
  exact hwithin _ _ hc

end Store

section World

variable {R : Recorded} {w w' : World}

/-- A change of the world that leaves everything but fields and counters alone. -/
theorem World.Extends.keep (hw : w.Sound R) (hdistances : w'.distances = w.distances)
    (hlog : w'.log = w.log) (hgrows : Grows w.store w'.store)
    (hfunctions : w'.store.functions = w.store.functions)
    (hclasses : w'.store.classes = w.store.classes)
    (hnatives : w'.store.natives = w.store.natives) : World.Extends R w w' :=
  ⟨hdistances, hlog, hgrows, hw.store.keep hgrows hfunctions hclasses hnatives⟩

theorem World.Extends.definePlain (hw : w.Sound R) (k : Nat) {name : Token} (hname : name.IsPlain)
    (v : Value) : World.Extends R w (w.define k name.lexeme v) :=
  .keep hw rfl rfl (.define _ k v (Store.not_isImplicit hname)) rfl rfl rfl

theorem World.Extends.addScope (hw : w.Sound R) (enclosing : Option Nat) :
    World.Extends R w (w.addScope enclosing) :=
  .keep hw rfl rfl (.addScope _ _) rfl rfl rfl

theorem World.Extends.addFunction (hw : w.Sound R) {c : Closure}
    (hc : c.Ready R w.Clean w.store) : World.Extends R w (w.addFunction c) :=
  ⟨rfl, rfl, .ofScopes rfl, hw.store.addFunction hc⟩

theorem World.Extends.addClass (hw : w.Sound R) (c : Class)
    (hc : ∀ name method, (name, method) ∈ c.methods.entries →
      method.ReadyMethod R w.Clean w.store) : World.Extends R w (w.addClass c) :=
  ⟨rfl, rfl, .ofScopes rfl, hw.store.addClass hc⟩

theorem World.Extends.defineAll (hw : w.Sound R) (k : Nat) {names : List Token}
    (hnames : ∀ p ∈ names, p.IsPlain) (values : List Value) :
    World.Extends R w (w.defineAll k names values) := by
  induction names generalizing w values with
  | nil => exact .refl hw
  | cons name names ih =>
    obtain ⟨hname, hnames⟩ := List.forall_mem_cons.1 hnames
    cases values with
    | nil => exact .refl hw
    | cons v values =>
      have hdefine := World.Extends.definePlain hw k hname v
      exact hdefine.trans (ih (hdefine.world hw) hnames values)

theorem World.own?_defineAll (hw : w.Sound R) {k : Nat} (hk : k < w.store.nextScope)
    {names : List Token} (hnames : ∀ p ∈ names, p.IsPlain) {values : List Value}
    (hlength : values.length = names.length) :
    ∀ p ∈ names, ((w.defineAll k names values).store.own? k p.lexeme).isSome := by
  induction names generalizing w values with
  | nil => simp
  | cons name names ih =>
    obtain ⟨hname, hnames⟩ := List.forall_mem_cons.1 hnames
    cases values with
    | nil => cases hlength
    | cons v values =>
      have hworld := (World.Extends.definePlain hw k hname v).world hw
      refine List.forall_mem_cons.2 ⟨?_, ih hworld (by simpa [World.define] using hk) hnames
        (by simpa using hlength)⟩
      refine (World.Extends.defineAll hworld k hnames values).grows.owned k _ ?_
      simp [World.define, Store.own?_define, hk]

@[simp] theorem World.enclosing_defineAll (w : World) (k : Nat) (names : List Token)
    (values : List Value) (j : Nat) :
    ((w.defineAll k names values).store.scope j).enclosing = (w.store.scope j).enclosing := by
  induction names generalizing w values with
  | nil => rfl
  | cons name names ih =>
    cases values with
    | nil => rfl
    | cons v values =>
      rw [World.defineAll, ih]
      simp [World.define]

/-- The scope of a call holds the parameters. -/
theorem World.fits_call (hw : w.Sound R) {Γ : Scopes} {outer : Nat}
    (hfits : Fits w.Clean w.store Γ outer) {names : List Token} (hnames : ∀ p ∈ names, p.IsPlain)
    {values : List Value} (hlength : values.length = names.length) :
    Fits w.Clean ((w.addScope (some outer)).defineAll w.store.nextScope names values).store
      (parameterScope names :: Γ) w.store.nextScope := by
  have hadd := World.Extends.addScope hw (some outer)
  have hall := World.Extends.defineAll (hadd.world hw) w.store.nextScope hnames values
  obtain ⟨hthis, hsuper⟩ := get?_parameterScope_of_plain hnames
  have hk : w.store.nextScope < (w.addScope (some outer)).store.nextScope := by
    simp [World.addScope]
  refine ⟨Nat.ne_of_gt hw.store.global,
    ⟨?_, fun name hname _ => ?_, ?_, ?_, fun _ name hname => ?_⟩, outer, ?_,
    hfits.grow (hadd.trans hall).grows⟩
  · exact Nat.lt_of_lt_of_le hk hall.grows.size
  · rw [hall.grows.implicit _ name hname hk, World.addScope, Store.own?_addScope,
      Store.own?_of_le _ (Nat.le_refl _)]
  · simp [Bindings.contains, hthis]
  · simp [Bindings.contains, hsuper]
  · obtain ⟨-, p, hp, rfl⟩ := get?_parameterScope hname
    exact World.own?_defineAll (hadd.world hw) hk hnames hlength p hp
  · rw [World.enclosing_defineAll]
    exact Store.enclosing_addScope_self _ _

/-- A new scope that binds one implicit name to a value of the right kind. -/
theorem World.holds_implicit (hw : w.Sound R) (outer : Nat) {name : String} {v : Value}
    (hv : name = "this" ∧ (∃ object, v = .object object) ∨ name = "super" ∧ ∃ cls, v = .cls cls) :
    let w' := (w.addScope (some outer)).define w.store.nextScope name v
    World.Extends R w w' ∧ Holds w.Clean w'.store (implicitScope name) w.store.nextScope ∧
      (w'.store.scope w.store.nextScope).enclosing = some outer ∧
      w'.store.own? w.store.nextScope name = some v := by
  intro w'
  have hextends : World.Extends R w w' := .keep hw rfl rfl (.addDefine _ _ _ _) rfl rfl rfl
  have hown : w'.store.own? w.store.nextScope name = some v := by
    simp [w', World.define, World.addScope, Store.own?_define]
  have himplicit (other : String) (readable : Bool)
      (h : (implicitScope name).get? other = some readable) : other = name := by
    rw [implicitScope, Bindings.get?_insert] at h
    split at h
    · assumption
    · cases h
  have hknown : w.store.nextScope < w'.store.nextScope := by
    simp [w', World.define, World.addScope]
  refine ⟨hextends, ⟨hknown, fun other _ hnot => ?_, fun hthis => ?_, fun hsuper => ?_,
    fun _ other hother => ?_⟩, ?_, hown⟩
  · have hne : other ≠ name := by
      rintro rfl
      simp [implicitScope, Bindings.contains] at hnot
    simp [w', World.define, World.addScope, Store.own?_define, Store.own?_addScope, hne,
      Store.own?_of_le]
  · obtain ⟨readable, hget⟩ := Option.isSome_iff_exists.1 hthis
    obtain rfl := himplicit _ _ hget
    rcases hv with ⟨-, object, rfl⟩ | ⟨hname, -⟩
    · exact ⟨object, hown⟩
    · exact absurd hname (by decide)
  · obtain ⟨readable, hget⟩ := Option.isSome_iff_exists.1 hsuper
    obtain rfl := himplicit _ _ hget
    rcases hv with ⟨hname, -⟩ | ⟨-, cls, rfl⟩
    · exact absurd hname (by decide)
    · exact ⟨cls, hown⟩
  · obtain rfl := himplicit _ _ hother
    rw [hown]
    rfl
  · simp only [w', World.define, World.addScope, Store.enclosing_define]
    exact Store.enclosing_addScope_self _ _

/-- A method that is bound to an instance can be called. -/
theorem World.bindMethod_ready (hw : w.Sound R) {method : Closure}
    (hmethod : method.ReadyMethod R w.Clean w.store) (object : Nat) :
    World.Extends R w (w.bindMethod method object).1 ∧
      (w.bindMethod method object).2.Ready R w.Clean (w.bindMethod method object).1.store := by
  obtain ⟨fn, ctx, hfn, hbound, hfits, hinitializer⟩ := hmethod
  obtain ⟨hextends, hheld, hlink, hown⟩ := World.holds_implicit hw method.scope
    (v := .object object) (.inl ⟨rfl, object, rfl⟩)
  exact ⟨hextends, fn, ctx.enter (implicitScope "this"), hfn, hbound,
    ⟨Nat.ne_of_gt hw.store.global, hheld, method.scope, hlink, hfits.grow hextends.grows⟩,
    fun hinit => ⟨hinitializer hinit, object, hown⟩⟩

theorem World.methodValue_extends (hw : w.Sound R) {method : Closure}
    (hmethod : method.ReadyMethod R w.Clean w.store) (object : Nat) :
    World.Extends R w (w.methodValue method object).1 := by
  obtain ⟨hextends, hready⟩ := World.bindMethod_ready hw hmethod object
  refine hextends.trans (World.Extends.addFunction (hextends.world hw) ?_)
  rw [hextends.clean]
  exact hready

theorem Fault.possible_report {f : Fault} (h : f.Possible) : f.report.Possible := by
  intro line message hreport
  cases f with
  | runtime line' cause =>
    obtain ⟨rfl, rfl⟩ : line' = line ∧ cause.message = message := by
      simpa [Fault.report] using hreport
    exact ⟨cause, h, rfl⟩
  | sink text => cases hreport

theorem World.clean_of_report {r : Report} (h : (w.report r).Clean) : w.Clean :=
  fun r' hr' => h r' (Array.mem_push.2 (.inl hr'))

theorem World.not_clean_report {r : Report} (hr : r.isRuntime = true) : ¬(w.report r).Clean := by
  intro h
  have hfalse := h r (Array.mem_push.2 (.inr rfl))
  rw [hr] at hfalse
  cases hfalse

theorem World.Sound.report {r : Report} (h : w.Sound R) (hr : r.Possible) :
    (w.report r).Sound R where
  recorded := h.recorded
  store := h.store.mono (fun _ _ _ hd => hd) World.clean_of_report
  log r' hr' := by
    rcases Array.mem_push.1 hr' with hr' | rfl
    · exact h.log r' hr'
    · exact hr
  rendered := h.rendered.add r

end World

end ClassScript
