import ClassScript.Proofs.Reading.Independence
import ClassScript.Proofs.Walking.Basic

/-! # Walking and reading agree

A walker stands where a cursor is if the tokens between its position and the first end token are
those that the cursor has left.  What the rules read from the cursor they then walk from the
position, and no look goes behind the end token.
-/
namespace ClassScript

/-- The first end token of the list and its index. -/
structure EndsAt (tokens : List Token) (stop : Nat) (last : Token) : Prop where
  token : tokens[stop]? = some last
  kind : last.kind = .endOfInput
  before : ∀ t ∈ tokens.take stop, t.kind ≠ .endOfInput

/-- The walker has kept to the tokens up to the index `stop`, and each declaration that it walked
brought it on, unless it was at the end. -/
structure Walker.KeepsTo (stop : Nat) (w : Walker) : Prop where
  position : w.position ≤ stop
  looks : ∀ l ∈ w.looks, l.position ≤ stop ∧ l.index ≤ stop
  stretches : ∀ s ∈ w.stretches, (s.start < stop → s.start < s.stop) ∧ s.stop ≤ stop

/-- The walker has kept to the tokens up to `stop`, and it stands where the cursor is. -/
structure Walker.Shows (tokens : List Token) (stop : Nat) (w : Walker) (c : Cursor) : Prop
    extends Walker.KeepsTo stop w where
  rest : c.rest = (tokens.take stop).drop w.position
  errors : w.errors = c.errors
  nextId : w.nextId = c.nextId

variable {tokens : List Token} {stop : Nat} {last t : Token} {ts : List Token}
  {w w' : Walker} {c c' : Cursor}

theorem EndsAt.lt_length (h : EndsAt tokens stop last) : stop < tokens.length :=
  (List.getElem?_eq_some_iff.1 h.token).1

namespace Walker.Shows

/-- How far the walker is from the end token. -/
theorem length (hw : Shows tokens stop w c) (h : EndsAt tokens stop last) :
    w.position + c.rest.length = stop := by
  have hposition := hw.position
  have hlength := h.lt_length
  rw [hw.rest, List.length_drop, List.length_take]
  omega

theorem position_eq (hw : Shows tokens stop w c) (hw' : Shows tokens stop w' c)
    (h : EndsAt tokens stop last) : w'.position = w.position := by
  have hlength := hw.length h
  have hlength' := hw'.length h
  omega

theorem here (hw : Shows tokens stop w c) (h : EndsAt tokens stop last) :
    tokens[w.position]? = some (c.rest.headD last) := by
  have hlength := hw.length h
  cases hrest : c.rest with
  | nil =>
    rw [hrest, List.length_nil, Nat.add_zero] at hlength
    rw [hlength]
    exact h.token
  | cons t ts =>
    rw [hrest, List.length_cons] at hlength
    have hhead : ((tokens.take stop).drop w.position)[0]? = some t := by rw [← hw.rest, hrest]; rfl
    rw [List.getElem?_drop, Nat.add_zero, List.getElem?_take_of_lt (by omega)] at hhead
    exact hhead

/-- The token that was stepped over is the one in front of the new position. -/
theorem behind (hw : Shows tokens stop w c) (h : EndsAt tokens stop last)
    (hrest : c.rest = t :: ts) (hw' : Shows tokens stop w' { c with rest := ts }) :
    tokens[w'.position - 1]? = some t := by
  have hlength := hw.length h
  rw [hrest, List.length_cons] at hlength
  have hlength' : w'.position + ts.length = stop := hw'.length h
  have hposition : w'.position - 1 = w.position := by omega
  rw [hposition, hw.here h, hrest, List.headD_cons]

/-- Only at the end token no token is left. -/
theorem at_end (hw : Shows tokens stop w c) (h : EndsAt tokens stop last) :
    ((c.rest.headD last).kind == .endOfInput) = c.rest.isEmpty := by
  cases hrest : c.rest with
  | nil => simpa using h.kind
  | cons t ts =>
    have hmem : t ∈ c.rest := by simp [hrest]
    rw [hw.rest] at hmem
    simpa using h.before t (List.mem_of_mem_drop hmem)

theorem note (hw : Shows tokens stop w c) (e : GrammarError) :
    Shows tokens stop { w with errors := w.errors.push e }
      { c with errors := c.errors.push e } :=
  ⟨⟨hw.position, hw.looks, hw.stretches⟩, hw.rest, congrArg (·.push e) hw.errors, hw.nextId⟩

theorem draw (hw : Shows tokens stop w c) :
    Shows tokens stop { w with nextId := c.nextId + 1 } { c with nextId := c.nextId + 1 } :=
  ⟨⟨hw.position, hw.looks, hw.stretches⟩, hw.rest, hw.errors, rfl⟩

theorem look {index : Nat} (hw : Shows tokens stop w c) (hindex : index ≤ stop) :
    Shows tokens stop { w with looks := ⟨w.position, index⟩ :: w.looks } c where
  position := hw.position
  rest := hw.rest
  errors := hw.errors
  nextId := hw.nextId
  looks := List.forall_mem_cons.2 ⟨⟨hw.position, hindex⟩, hw.looks⟩
  stretches := hw.stretches

theorem step (hw : Shows tokens stop w c) (h : EndsAt tokens stop last) (hrest : c.rest = t :: ts) :
    Shows tokens stop { w with position := w.position + 1 } { c with rest := ts } where
  position := by
    have hlength := hw.length h
    rw [hrest, List.length_cons] at hlength
    show w.position + 1 ≤ stop
    omega
  rest := by
    show ts = (tokens.take stop).drop (w.position + 1)
    rw [← List.tail_drop, ← hw.rest, hrest, List.tail_cons]
  errors := hw.errors
  nextId := hw.nextId
  looks := hw.looks
  stretches := hw.stretches

theorem finish {start : Nat} (hw : Shows tokens stop w c)
    (hgets : start < stop → start < w.position) :
    Shows tokens stop { w with stretches := ⟨start, w.position⟩ :: w.stretches } c where
  position := hw.position
  rest := hw.rest
  errors := hw.errors
  nextId := hw.nextId
  looks := hw.looks
  stretches := List.forall_mem_cons.2 ⟨⟨hgets, hw.position⟩, hw.stretches⟩

end Walker.Shows

namespace Walk

open Walker (Shows)

variable {α β : Type}

/-- The walk yields a value and stands where the cursor is. -/
def Arrives (tokens : List Token) (stop : Nat) (r : Walk α) (w : Walker) (a : α) (c : Cursor) :
    Prop :=
  ∃ w', r tokens w = some (.ok a, w') ∧ Shows tokens stop w' c

namespace Arrives

theorem pure (hw : Shows tokens stop w c) (a : α) : Arrives tokens stop (Pure.pure a) w a c :=
  ⟨w, rfl, hw⟩

theorem bind {r : Walk α} {f : α → Walk β} {a : α} {b : β} (h : Arrives tokens stop r w a c)
    (hf : ∀ w', Shows tokens stop w' c → Arrives tokens stop (f a) w' b c') :
    Arrives tokens stop (r >>= f) w b c' := by
  obtain ⟨w', hr, hw'⟩ := h
  obtain ⟨w'', hread, hw''⟩ := hf w' hw'
  exact ⟨w'', by simp only [Bind.bind, Walk.bind, hr, hread], hw''⟩

theorem map {r : Walk α} {a : α} (h : Arrives tokens stop r w a c) (f : α → β) :
    Arrives tokens stop (f <$> r) w (f a) c :=
  h.bind fun _ hw' => pure hw' (f a)

end Arrives

theorem arrives_look {index : Nat} (hw : Shows tokens stop w c) (hindex : index ≤ stop)
    (ht : tokens[index]? = some t) : Arrives tokens stop (look index) w t c :=
  ⟨_, by rw [look, ht], hw.look hindex⟩

theorem arrives_previous (hw : Shows tokens stop w c) (ht : tokens[w.position - 1]? = some t) :
    Arrives tokens stop previous w t c := by
  have hposition := hw.position
  obtain ⟨w', hlook, hw'⟩ := arrives_look hw (by omega) ht
  exact ⟨w', hlook, hw'⟩

theorem resume_single (t : Token) : Read.resume [t] = [] := by
  rw [Read.resume]
  split <;> rfl

section Looking

variable (h : EndsAt tokens stop last)

include h

theorem arrives_peek (hw : Shows tokens stop w c) :
    Arrives tokens stop peek w (c.rest.headD last) c := by
  obtain ⟨w', hlook, hw'⟩ := arrives_look hw hw.position (hw.here h)
  exact ⟨w', hlook, hw'⟩

theorem arrives_atEnd (hw : Shows tokens stop w c) :
    Arrives tokens stop atEnd w c.rest.isEmpty c := by
  apply (arrives_peek h hw).bind
  intro w' hw'
  rw [hw'.at_end h]
  exact .pure hw' _

theorem arrives_advance (hw : Shows tokens stop w c) (hrest : c.rest = t :: ts) :
    Arrives tokens stop advance w t { c with rest := ts } := by
  apply (arrives_atEnd h hw).bind
  intro w' hw'
  have ht := hw'.here h
  rw [hrest, List.headD_cons] at ht
  obtain ⟨w'', hprevious, hw''⟩ := arrives_previous (hw'.step h hrest) ht
  rw [hrest]
  exact ⟨w'', hprevious, hw''⟩

/-- At the end nothing is stepped over, though a token is looked at. -/
theorem arrives_advance_end (hw : Shows tokens stop w c) (hrest : c.rest = []) :
    ∃ t, tokens[w.position - 1]? = some t ∧ Arrives tokens stop advance w t c := by
  have hposition := hw.position
  have hlength := h.lt_length
  have ht := List.getElem?_eq_getElem (show w.position - 1 < tokens.length by omega)
  refine ⟨tokens[w.position - 1], ht, ?_⟩
  apply (arrives_atEnd h hw).bind
  intro w' hw'
  rw [hrest]
  apply arrives_previous hw'
  rw [hw.position_eq hw' h]
  exact ht

theorem arrives_check (hw : Shows tokens stop w c) (p : Token → Bool) :
    Arrives tokens stop (check p) w ((c.rest.head?.map p).getD false) c := by
  apply (arrives_atEnd h hw).bind
  intro w' hw'
  cases hrest : c.rest with
  | nil => exact .pure hw' false
  | cons t ts =>
    apply (arrives_peek h hw').bind
    intro w'' hw''
    rw [hrest]
    exact .pure hw'' (p t)

/-- Stepping on stops where reading resumes behind the token `t`, which is stepped over already. -/
theorem arrives_skip {n : Nat} (hn : c.rest.length < n) (hw : Shows tokens stop w c)
    (ht : tokens[w.position - 1]? = some t) :
    Arrives tokens stop (skip n) w () { c with rest := Read.resume (t :: c.rest) } := by
  induction n generalizing w c t with
  | zero => omega
  | succ n ih =>
    apply (arrives_atEnd h hw).bind
    intro w₁ hw₁
    rw [← hw.position_eq hw₁ h] at ht
    cases hrest : c.rest with
    | nil =>
      have hend : Read.resume [t] = c.rest := by rw [resume_single, hrest]
      rw [hend]
      exact .pure hw₁ ()
    | cons t' ts =>
      apply (arrives_previous hw₁ ht).bind
      intro w₂ hw₂
      rw [Read.resume]
      cases hsemicolon : t.kind == .semicolon with
      | true =>
        rw [Bool.true_or, if_pos rfl, ← hrest]
        exact .pure hw₂ ()
      | false =>
        rw [Bool.false_or]
        apply (arrives_peek h hw₂).bind
        intro w₃ hw₃
        rw [hrest, List.headD_cons, List.head?_cons, Option.map_some, Option.getD_some]
        cases hbegins : t'.beginsStatement with
        | true =>
          rw [if_pos rfl, ← hrest]
          exact .pure hw₃ ()
        | false =>
          rw [if_neg Bool.false_ne_true]
          apply (arrives_advance h hw₃ hrest).bind
          intro w₄ hw₄
          exact ih (by simp only [hrest, List.length_cons] at hn ⊢; omega) hw₄
            (hw₃.behind h hrest hw₄)

theorem arrives_synchronize (hw : Shows tokens stop w c) :
    Arrives tokens stop synchronize w () { c with rest := Read.resume c.rest } := by
  show Arrives tokens stop (advance >>= fun _ => skip tokens.length) w () _
  have hlength := hw.length h
  have hstop := h.lt_length
  cases hrest : c.rest with
  | nil =>
    obtain ⟨t, ht, hadvance⟩ := arrives_advance_end h hw hrest
    apply hadvance.bind
    intro w' hw'
    rw [← hw.position_eq hw' h] at ht
    have hskip := arrives_skip (n := tokens.length) h (by omega) hw' ht
    rw [hrest, resume_single] at hskip
    exact hskip
  | cons t ts =>
    rw [hrest, List.length_cons] at hlength
    apply (arrives_advance h hw hrest).bind
    intro w' hw'
    exact arrives_skip h (show ts.length < tokens.length by omega) hw' (hw.behind h hrest hw')

end Looking

/-! ### What is read is walked -/

/-- Where the reader yields a result, the walk has it too, and the walker follows the cursor. -/
def Traces (tokens : List Token) (stop : Nat) (last : Token) (α : Type) (r : Read α)
    (r' : Walk α) : Prop :=
  ∀ c w, Shows tokens stop w c → ∀ result c', r last c = some (result, c') →
    ∃ w', r' tokens w = some (result, w') ∧ Shows tokens stop w' c'

theorem traces_of_arrives {r : Read α} {r' : Walk α}
    (hr : ∀ c w, Shows tokens stop w c →
      ∃ a c', r last c = some (.ok a, c') ∧ Arrives tokens stop r' w a c') :
    Traces tokens stop last α r r' := by
  intro c w hw result c' hread
  obtain ⟨a, c₁, hread₁, w', hwalk, hw'⟩ := hr c w hw
  obtain ⟨rfl, rfl⟩ := Prod.mk.inj (Option.some.inj (hread.symm.trans hread₁))
  exact ⟨w', hwalk, hw'⟩

theorem traces_pure (a : α) : Traces tokens stop last α (Pure.pure a) (Pure.pure a) :=
  traces_of_arrives fun c _ hw => ⟨a, c, rfl, .pure hw a⟩

theorem traces_bind {r : Read α} {r' : Walk α} {f : α → Read β} {f' : α → Walk β}
    (hr : Traces tokens stop last α r r') (hf : ∀ a, Traces tokens stop last β (f a) (f' a)) :
    Traces tokens stop last β (r >>= f) (r' >>= f') := by
  intro c w hw result c' h
  simp only [Bind.bind, Read.bind, Walk.bind] at h ⊢
  cases hread : r last c with
  | none => simp [hread] at h
  | some first =>
    obtain ⟨a?, c₁⟩ := first
    obtain ⟨w', hwalk, hw'⟩ := hr c w hw a? c₁ hread
    rw [hread] at h
    rw [hwalk]
    cases a? with
    | error e =>
      obtain ⟨rfl, rfl⟩ := Prod.mk.inj (Option.some.inj h)
      exact ⟨w', rfl, hw'⟩
    | ok a => exact hf a c₁ w' hw' result c' h

theorem traces_fail (t : Token) (cause : GrammarCause) :
    Traces tokens stop last α (Read.fail t cause) (fail t cause) := by
  intro c w hw result c' h
  obtain ⟨rfl, rfl⟩ := Prod.mk.inj (Option.some.inj h)
  exact ⟨w, rfl, hw⟩

theorem traces_note (t : Token) (cause : GrammarCause) :
    Traces tokens stop last Unit (Read.note t cause) (note t cause) :=
  traces_of_arrives fun _ _ hw => ⟨(), _, rfl, _, rfl, hw.note ⟨t, cause⟩⟩

theorem traces_freshId : Traces tokens stop last Nat Read.freshId freshId := by
  apply traces_of_arrives
  intro c w hw
  refine ⟨c.nextId, _, rfl, _, ?_, hw.draw⟩
  rw [freshId, hw.nextId]

theorem arrives_attempt {r : Read α} {r' : Walk α} {result : Except GrammarError α}
    (hr : Traces tokens stop last α r r') (hw : Shows tokens stop w c)
    (hread : r last c = some (result, c')) : Arrives tokens stop (attempt r') w result c' := by
  obtain ⟨w', hwalk, hw'⟩ := hr c w hw result c' hread
  exact ⟨w', by rw [attempt, hwalk, Option.map_some], hw'⟩

section Tracing

variable (h : EndsAt tokens stop last)

include h

theorem traces_peek : Traces tokens stop last Token Read.peek peek :=
  traces_of_arrives fun _ _ hw => ⟨_, _, rfl, arrives_peek h hw⟩

theorem traces_atEnd : Traces tokens stop last Bool Read.atEnd atEnd :=
  traces_of_arrives fun _ _ hw => ⟨_, _, rfl, arrives_atEnd h hw⟩

theorem traces_sees (kind : Token.Kind) :
    Traces tokens stop last Bool (Read.sees kind) (check fun t => t.kind == kind) := by
  apply traces_of_arrives
  intro c w hw
  refine ⟨_, c, rfl, ?_⟩
  have hcheck := arrives_check h hw fun t => t.kind == kind
  cases hrest : c.rest with
  | nil =>
    rw [hrest] at hcheck
    exact hcheck
  | cons t ts =>
    rw [hrest] at hcheck
    exact hcheck

theorem traces_acceptIf (p : Token → Bool) :
    Traces tokens stop last (Option Token) (Read.acceptIf p) (acceptIf p) := by
  apply traces_of_arrives
  intro c w hw
  have hcheck := arrives_check h hw p
  cases hrest : c.rest with
  | nil =>
    rw [hrest] at hcheck
    refine ⟨none, c, by rw [Read.acceptIf, hrest], ?_⟩
    exact hcheck.bind fun w' hw' => .pure hw' none
  | cons t ts =>
    rw [hrest, List.head?_cons, Option.map_some, Option.getD_some] at hcheck
    cases hp : p t with
    | true =>
      rw [hp] at hcheck
      refine ⟨some t, { c with rest := ts }, by simp [Read.acceptIf, hrest, hp], ?_⟩
      exact hcheck.bind fun w' hw' => (arrives_advance h hw' hrest).map some
    | false =>
      rw [hp] at hcheck
      refine ⟨none, c, by simp [Read.acceptIf, hrest, hp], ?_⟩
      exact hcheck.bind fun w' hw' => .pure hw' none

/-- What a declaration is read as is walked as well, errors and the way to the next statement
included, and the walker gets on unless it is at the end. -/
theorem traces_recovering {n : Nat} {r : Walk Stmt}
    (hr : Traces tokens stop last Stmt (Rules.declaration n) r) :
    Traces tokens stop last (Option Stmt) (Read.recovering (Rules.declaration n))
      (recovering r) := by
  intro c w hw result c' hread
  -- whatever became of the declaration, the cursor has lost a token if it had one
  have hgets (w' : Walker) (hw' : Shows tokens stop w' c') :
      w.position < stop → w.position < w'.position := by
    intro hstart
    have hlength := hw.length h
    have hlength' := hw'.length h
    have hrest : c.rest ≠ [] := List.length_pos_iff.1 (by omega)
    have hshorter := Read.recovering_declaration_shortens hrest hread
    omega
  have hcases := hread
  simp only [Read.recovering] at hcases
  cases hdeclaration : Rules.declaration (m := Read) n last c with
  | none => simp [hdeclaration] at hcases
  | some first =>
    rw [hdeclaration] at hcases
    have hposition : Arrives tokens stop position w w.position c := ⟨w, rfl, hw⟩
    obtain ⟨e | s, c₁⟩ := first
    · obtain ⟨rfl, rfl⟩ := Prod.mk.inj (Option.some.inj hcases)
      apply hposition.bind
      intro w₁ hw₁
      apply (arrives_attempt hr hw₁ hdeclaration).bind
      intro w₂ hw₂
      have hnote : Arrives tokens stop (note e.token e.cause) w₂ () _ := ⟨_, rfl, hw₂.note e⟩
      apply hnote.bind
      intro w₃ hw₃
      apply (arrives_synchronize h hw₃).bind
      intro w₄ hw₄
      have hfinish : Arrives tokens stop (finish w.position) w₄ () _ :=
        ⟨_, rfl, hw₄.finish (hgets w₄ hw₄)⟩
      exact hfinish.bind fun _ hw₅ => .pure hw₅ none
    · obtain ⟨rfl, rfl⟩ := Prod.mk.inj (Option.some.inj hcases)
      apply hposition.bind
      intro w₁ hw₁
      apply (arrives_attempt hr hw₁ hdeclaration).bind
      intro w₂ hw₂
      have hfinish : Arrives tokens stop (finish w.position) w₂ () _ :=
        ⟨_, rfl, hw₂.finish (hgets w₂ hw₂)⟩
      exact hfinish.bind fun _ hw₃ => .pure hw₃ (some s)

theorem respects_traces : Rules.Respects (Traces tokens stop last) where
  pure := traces_pure
  bind := traces_bind
  map f hr := traces_bind hr fun a => traces_pure (f a)
  exhausted _ _ _ _ _ _ hread := nomatch hread
  fail := traces_fail
  note := traces_note
  freshId := traces_freshId
  peek := traces_peek h
  sees := traces_sees h
  acceptOther p _ := traces_acceptIf h p
  atEnd := traces_atEnd h
  acceptIf := traces_acceptIf h
  recovering _ _ := traces_recovering h

end Tracing

end Walk

namespace Program

theorem body_kind {tokens : List Token} {t : Token} (ht : t ∈ body tokens) :
    t.kind ≠ .endOfInput := by
  simpa using List.all_eq_true.1 List.all_takeWhile t ht

theorem lastToken_kind (tokens : List Token) : (lastToken tokens).kind = .endOfInput := by
  rw [lastToken]
  cases hfind : tokens.find? fun t => t.kind == .endOfInput with
  | none => rfl
  | some t => simpa using List.find?_some hfind

/-- In front of the first end token there is what is read, and it is followed by that end token. -/
theorem closed_eq (tokens : List Token) :
    ∃ behind, closed tokens = body tokens ++ lastToken tokens :: behind := by
  cases hfind : tokens.find? fun t => t.kind == .endOfInput with
  | none =>
    have hnone := List.find?_eq_none.1 hfind
    have hbody : body tokens = tokens := by
      apply body_eq_self
      intro t ht
      simpa using hnone t ht
    have hopen : tokens.getLast?.map Token.kind ≠ some .endOfInput := by
      intro hlast
      obtain ⟨t, ht, hkind⟩ := Option.map_eq_some_iff.1 hlast
      exact hnone t (List.mem_of_getLast? ht) (by simpa using hkind)
    rw [closed, if_neg hopen, lastToken, hfind, hbody]
    exact ⟨[], rfl⟩
  | some last =>
    obtain ⟨hlast, front, behind, htokens, hfront⟩ := List.find?_eq_some_iff_append.1 hfind
    have hbody : body tokens = front := by
      rw [htokens, body_append]
      · rw [body, List.takeWhile_cons_of_neg (by simpa using hlast), List.append_nil]
      · intro t ht
        simpa using hfront t ht
    have hmore (t : Token) : tokens ++ [t] = front ++ last :: (behind ++ [t]) := by
      rw [htokens, List.append_assoc, List.cons_append]
    rw [lastToken, hfind, hbody, Option.getD_some, closed]
    split
    · exact ⟨behind, htokens⟩
    · exact ⟨_, hmore _⟩

theorem endIndex_eq (tokens : List Token) : endIndex tokens = (body tokens).length := by
  obtain ⟨behind, hclosed⟩ := closed_eq tokens
  have hbody : (body tokens).findIdx (fun t => t.kind == .endOfInput) = (body tokens).length := by
    apply List.findIdx_eq_length.2
    intro t ht
    simpa using body_kind ht
  rw [endIndex, hclosed, List.findIdx_append, hbody, if_neg (Nat.lt_irrefl _), List.findIdx_cons,
    lastToken_kind]
  exact Nat.zero_add _

theorem endsAt_closed (tokens : List Token) :
    EndsAt (closed tokens) (endIndex tokens) (lastToken tokens) := by
  obtain ⟨behind, hclosed⟩ := closed_eq tokens
  rw [endIndex_eq]
  constructor
  case token => rw [hclosed, List.getElem?_append_right (Nat.le_refl _), Nat.sub_self]; rfl
  case kind => exact lastToken_kind tokens
  case before =>
    intro t ht
    rw [hclosed, List.take_left] at ht
    exact body_kind ht

/-- What is left of the list when it is cut off behind its first end token. -/
theorem take_closed (tokens : List Token) :
    (closed tokens).take (endIndex tokens + 1) = body tokens ++ [lastToken tokens] := by
  obtain ⟨behind, hclosed⟩ := closed_eq tokens
  rw [hclosed, endIndex_eq, List.take_length_add_append]
  rfl

/-- The list that is cut off behind its first end token is read like the whole one. -/
theorem ofTokens_take (nextId : Nat) (tokens : List Token) :
    ofTokens nextId ((closed tokens).take (endIndex tokens + 1)) = ofTokens nextId tokens := by
  have hterminated : Terminated (body tokens ++ [lastToken tokens]) (body tokens)
      (lastToken tokens) :=
    ⟨rfl, lastToken_kind tokens, fun t ht => body_kind ht⟩
  rw [take_closed]
  apply ofTokens_congr
  · exact hterminated.body_eq
  · exact hterminated.lastToken_eq

theorem shows_start (nextId : Nat) (tokens : List Token) :
    Walker.Shows (closed tokens) (endIndex tokens) { nextId } ⟨body tokens, #[], nextId⟩ where
  position := Nat.zero_le _
  looks := by simp
  stretches := by simp
  rest := by
    obtain ⟨behind, hclosed⟩ := closed_eq tokens
    rw [hclosed, endIndex_eq, List.take_left, List.drop_zero]
  errors := rfl
  nextId := rfl

/-- Every token list is walked to its first end token, with no look behind it and with every
declaration getting on.  What comes of it is what reading comes to, and up to identities it is the
same if the list is cut off behind that token. -/
theorem walk_to_end (nextId more : Nat) (tokens : List Token) :
    endIndex tokens < (closed tokens).length ∧
      (∃ w, walk (depthBound tokens + more) nextId tokens = some (ofTokens nextId tokens, w) ∧
        w.KeepsTo (endIndex tokens) ∧ w.position = endIndex tokens) ∧
      ∀ nextId', (ofTokens nextId' ((closed tokens).take (endIndex tokens + 1))).outcome.map
          Stmt.eraseAll =
        (ofTokens nextId tokens).outcome.map Stmt.eraseAll := by
  have hends := endsAt_closed tokens
  refine ⟨hends.lt_length, ?_, fun nextId' => ?_⟩
  · obtain ⟨result, c, used, hread, -, hok⟩ :=
      (Read.statementReaders (depthBound tokens)).statements (lastToken tokens)
        ⟨body tokens, #[], nextId⟩ false (depth_enough tokens)
    obtain ⟨program, rfl⟩ := Read.Succeeds.statements _ _ _ _ _ _ hread
    have hdeeper := Nat.le_add_right (depthBound tokens) more
    have htraces := ((Walk.respects_traces hends).all hdeeper).statements false
    obtain ⟨w, hwalk, hw⟩ := htraces _ _ (shows_start nextId tokens) _ _ hread
    refine ⟨w, ?_, hw.toKeepsTo, ?_⟩
    · rw [walk, hwalk, ofTokens, hread]
      simp only [hw.errors, hw.nextId]
    · have hlength := hw.length hends
      rw [(hok program rfl).atEnd rfl] at hlength
      exact hlength
  · rw [ofTokens_take]
    exact ofTokens_counter nextId nextId' tokens

example : (walk 80 0 [⟨.rightParen, ")", none, 1⟩, .endOfInput 1, ⟨.nilWord, "nil", none, 2⟩]).map
    (fun walked => (walked.2.position, walked.2.stretches)) = some (1, [⟨0, 1⟩]) := by
  decide +kernel

end Program

end ClassScript
