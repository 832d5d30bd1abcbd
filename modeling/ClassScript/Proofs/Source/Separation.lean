import ClassScript.Proofs.Source.LongestMatch

/-! # Blanks between tokens

No token but a string has a blank in it, and a string ends at its own quote.  So where a blank
follows, the longest token is the same whatever stands behind the blank.  Tokens written out with
blanks between them are therefore read back, and a text can be cut at a line end that is not inside
of a string.
-/
namespace ClassScript

namespace Token

/-- What a token is, wherever it stands. -/
def content (t : Token) : Kind × String × Option Literal := (t.kind, t.lexeme, t.literal)

end Token

namespace Source

/-- The tokens of a source text in front of the end token. -/
def properTokens (source : String) : List Token :=
  (tokens source).filter fun t => t.kind != .endOfInput

/-- The lexemes of tokens with one blank between two of them. -/
def spaced (ts : List Token) : String := String.intercalate " " (ts.map Token.lexeme)

/-- The item as it would be that many lines further down. -/
def Item.lower (lines : Nat) : Item → Item
  | .token t => .token { t with line := t.line + lines }
  | .error line cause => .error (line + lines) cause

section Boundary

variable {b c : Char} {cs text text' front rest behind : List Char} {kind kind' : Token.Kind}
  {literal literal' : Option Token.Literal} {line : Nat} {t : Token} {item? : Option Item}

theorem not_isBlank_of_isWordChar (h : isWordChar c = true) : isBlank c = false := by
  by_contra hblank
  simp only [isBlank, Bool.or_eq_true, beq_iff_eq, Bool.not_eq_false] at hblank
  obtain ((rfl | rfl) | rfl) | rfl := hblank <;> revert h <;> decide

theorem not_isBlank_of_isDigit (h : isDigit c = true) : isBlank c = false :=
  not_isBlank_of_isWordChar (by simp [isWordChar, h])

theorem IsWord.no_blank (h : IsWord text) : ∀ d ∈ text, isBlank d = false := by
  obtain ⟨c, cs, rfl, hstart, hrest⟩ := h
  intro d hd
  rcases List.mem_cons.1 hd with rfl | hd
  · exact not_isBlank_of_isWordChar (by simp [isWordChar, hstart])
  · exact not_isBlank_of_isWordChar (hrest d hd)

theorem Numeral.no_blank {x : Number} (h : Numeral text x) : ∀ d ∈ text, isBlank d = false := by
  cases h with
  | whole hne hdigits => exact fun d hd => not_isBlank_of_isDigit (hdigits d hd)
  | fraction hne hdigits hsome hplaces =>
    intro d hd
    rcases List.mem_append.1 hd with hd | hd
    · exact not_isBlank_of_isDigit (hdigits d hd)
    rcases List.mem_cons.1 hd with rfl | hd
    · rfl
    · exact not_isBlank_of_isDigit (hplaces d hd)

/-- Only strings have blanks in them. -/
theorem Lexeme.quote_of_blank (h : Lexeme text kind literal) (hb : b ∈ text)
    (hblank : isBlank b = true) : ∃ body, text = '"' :: (body ++ ['"']) ∧ '"' ∉ body := by
  have hfree (hfree : ∀ d ∈ text, isBlank d = false) : False := by simp [hfree b hb] at hblank
  cases h with
  | symbol h =>
    have htable : (Token.symbols.all fun entry => entry.1.toList.all fun d => !isBlank d) = true :=
      by decide
    simp only [List.all_eq_true, Bool.not_eq_true'] at htable
    exact (hfree (by simpa using htable _ h)).elim
  | number h => exact (hfree h.no_blank).elim
  | reserved h => exact (hfree h.no_blank).elim
  | name h => exact (hfree h.no_blank).elim
  | string h => exact ⟨_, rfl, h⟩

/-- No string is a proper beginning of another one, nor is any other token. -/
theorem Lexeme.eq_of_begins {body : List Char} (h : Lexeme text kind literal) (hbody : '"' ∉ body)
    (hbegins : text <+: '"' :: (body ++ ['"'])) : text = '"' :: (body ++ ['"']) := by
  obtain ⟨c, cs, rfl⟩ := List.exists_cons_of_ne_nil h.ne_nil
  obtain ⟨rfl, hinside⟩ := List.cons_prefix_cons.1 hbegins
  obtain ⟨body', rfl, -, -, -⟩ := h.of_quote
  rcases List.prefix_concat_iff.1 hinside with heq | hinside
  · rw [heq]
  · exact absurd (hinside.subset (by simp)) hbody

/-- A beginning of a text either ends in front of a character or has it. -/
theorem prefix_or_prefix (h : text <+: front ++ c :: behind) :
    text <+: front ∨ front ++ [c] <+: text := by
  have hfront : front ++ [c] <+: front ++ c :: behind := ⟨behind, by simp⟩
  rcases List.prefix_or_prefix_of_prefix h hfront with hle | hge
  · rcases List.prefix_concat_iff.1 hle with rfl | hle
    · exact .inr List.prefix_rfl
    · exact .inl hle
  · exact .inr hge

/-- A token that goes on over a blank is a string. -/
theorem Lexeme.prefix_or_string (h : Lexeme text kind literal) (hb : isBlank b = true)
    (hinside : text <+: front ++ b :: behind) :
    text <+: front ∨ ∃ body, text = '"' :: (body ++ ['"']) ∧ '"' ∉ body ∧ front <+: text ∧
      text ≠ front := by
  rcases prefix_or_prefix hinside with hfront | hover
  · exact .inl hfront
  · obtain ⟨body, rfl, hbody⟩ := h.quote_of_blank (hover.subset (by simp)) hb
    refine .inr ⟨body, rfl, hbody, (List.prefix_append _ _).trans hover, ?_⟩
    rintro heq
    have hlength := hover.length_le
    rw [heq, List.length_append, List.length_singleton] at hlength
    omega

theorem skips_append_blank (hb : isBlank b = true) (hne : front ≠ []) :
    Skips (front ++ b :: behind) ↔ Skips front := by
  obtain ⟨c, cs, rfl⟩ := List.exists_cons_of_ne_nil hne
  rw [List.cons_append, skips_cons, skips_cons]
  cases cs with
  | nil =>
    have hslash : b ≠ '/' := by
      rintro rfl
      simp [isBlank] at hb
    simp [hslash]
  | cons d cs => rfl

/-- A token is taken as before if a blank and anything else follow. -/
theorem Takes.append_blank (h : Takes line text rest (some (.token t))) (hb : isBlank b = true)
    (behind : List Char) : Takes line text (rest ++ b :: behind) (some (.token t)) := by
  cases h with
  | token hfront h hlongest =>
    have hne : text ++ rest ≠ [] := List.append_ne_nil_of_left_ne_nil h.ne_nil rest
    refine .token ?_ h fun text' kind' literal' h' hinside => ?_
    · rw [← List.append_assoc]
      exact fun hskip => hfront ((skips_append_blank hb hne).1 hskip)
    · rw [← List.append_assoc] at hinside
      rcases h'.prefix_or_string hb hinside with hinside | ⟨body, rfl, hbody, hover, -⟩
      · exact hlongest text' kind' literal' h' hinside
      -- a string that goes on over the blank begins with the token, so it is no longer than that
      · rw [h.eq_of_begins hbody ((List.prefix_append _ _).trans hover)]

/-- What follows a token can be left out. -/
theorem Takes.alone (h : Takes line text rest (some (.token t))) (line' : Nat) :
    Takes line' text [] (some (.token { t with line := line' })) := by
  cases h with
  | token hfront h hlongest =>
    refine .token ?_ h fun text' kind' literal' h' hinside => ?_
    · rw [List.append_nil]
      rintro (⟨c, cs, rfl, hc⟩ | hcomment)
      · exact hfront (.inl ⟨c, cs ++ rest, rfl, hc⟩)
      · exact hfront (.inr (hcomment.trans (List.prefix_append _ _)))
    · rw [List.append_nil] at hinside
      exact hlongest text' kind' literal' h' (hinside.trans (List.prefix_append _ _))

/-- What is taken off a text is taken off it as before if the line ends there and more lines follow,
unless it is a quote that is not closed. -/
theorem Takes.append_line (h : Takes line text rest item?)
    (hclosed : item? ≠ some (.error line .unterminated)) (behind : List Char) :
    Takes line text (rest ++ '\n' :: behind) item? := by
  have hb : isBlank '\n' = true := rfl
  cases h with
  | blank hc => exact .blank hc
  | comment htext hrest =>
    refine .comment htext fun c hc => ?_
    cases rest with
    | nil => simpa using hc.symm
    | cons d rest => exact hrest c hc
  | token hfront h hlongest => exact (Takes.token hfront h hlongest).append_blank hb behind
  | unterminated => exact absurd rfl hclosed
  | @unexpected c rest hfront hquote hnone =>
    refine .unexpected ?_ hquote fun text' kind' literal' h' hinside => ?_
    · exact fun hskip => hfront ((skips_append_blank hb (List.cons_ne_nil c rest)).1 hskip)
    · change text' <+: (c :: rest) ++ '\n' :: behind at hinside
      rcases h'.prefix_or_string hb hinside with hinside | ⟨body, rfl, -, hover, -⟩
      · exact hnone text' kind' literal' h' hinside
      · exact hquote (List.cons_prefix_cons.1 hover).1

/-- A text goes on behind a line end, if no quote is left open in front of it. -/
theorem Lexes.append_line {items items' : List Item} (h : Lexes line cs items)
    (hclosed : ∀ n, Item.error n .unterminated ∉ items)
    (h' : Lexes (line + cs.count '\n' + 1) behind items') :
    ∃ front, items = front ++ [.token (.endOfInput (line + cs.count '\n'))] ∧
      Lexes line (cs ++ '\n' :: behind) (front ++ items') := by
  induction h with
  | @finish line => exact ⟨[], rfl, .step (.blank rfl) h'⟩
  | @step line text rest item? items h hrest ih =>
    rw [List.count_append, ← Nat.add_assoc] at h' ⊢
    obtain ⟨front, rfl, hfront⟩ := ih (fun n hn => hclosed n (List.mem_append_right _ hn)) h'
    refine ⟨item?.toList ++ front, (List.append_assoc _ _ _).symm, ?_⟩
    have hitem : item? ≠ some (.error (line + text.count '\n') .unterminated) := by
      rintro rfl
      exact hclosed _ List.mem_cons_self
    rw [List.append_assoc, List.append_assoc]
    exact .step (h.append_line hitem behind) hfront

theorem itemsFrom_lower (lines : Nat) (ps : List Piece) :
    itemsFrom (line + lines) ps = (itemsFrom line ps).map (Item.lower lines) := by
  have hitem (p : Piece) (n : Nat) : p.item? (n + lines) = (p.item? n).map (Item.lower lines) := by
    unfold Piece.item?
    split <;> rfl
  induction ps generalizing line with
  | nil => rfl
  | cons p ps ih =>
    have hline : line + lines + p.newlines = line + p.newlines + lines := by omega
    rw [itemsFrom_cons, itemsFrom_cons, hline, hitem, ih, List.map_append]
    cases p.item? (line + p.newlines) <;> rfl

/-- A token that is read from its own lexeme. -/
def Standalone (t : Token) : Prop :=
  ∀ n, Takes n t.lexeme.toList [] (some (.token { t with line := n }))

theorem Lexes.standalone {items : List Item} (h : Lexes line cs items)
    (ht : Item.token t ∈ items) (hend : t.kind ≠ .endOfInput) : Standalone t := by
  induction h with
  | finish =>
    obtain rfl : t = .endOfInput _ := by simpa using ht
    exact absurd rfl hend
  | @step line text rest item? items h hrest ih =>
    rcases List.mem_append.1 ht with hhead | htail
    · obtain rfl : item? = some (.token t) := by simpa using hhead
      intro n
      have halone := h.alone n
      cases h
      simpa using halone
    · exact ih htail

/-- Tokens that are read from their own lexemes are read from all of these with blanks between. -/
theorem lexes_spaced {ts : List Token} (hts : ∀ t ∈ ts, Standalone t) (line : Nat) :
    ∃ (again : List Token) (n : Nat), Lexes line (spaced ts).toList
        (again.map Item.token ++ [.token (.endOfInput n)]) ∧
      again.map Token.content = ts.map Token.content := by
  induction ts generalizing line with
  | nil => exact ⟨[], line, .finish, rfl⟩
  | cons t ts ih =>
    obtain ⟨ht, hts⟩ := List.forall_mem_cons.1 hts
    let n := line + t.lexeme.toList.count '\n'
    obtain ⟨again, last, hagain, hcontent⟩ := ih hts n
    refine ⟨{ t with line := n } :: again, last, ?_, by simp [hcontent, Token.content]⟩
    have halone := ht n
    cases ts with
    | nil =>
      obtain rfl : again = [] := by simpa using hcontent
      have hlast := Lexes.step halone hagain
      simpa [spaced] using hlast
    | cons t' ts =>
      have hblank : Lexes n (' ' :: (spaced (t' :: ts)).toList) _ := .step (.blank rfl) hagain
      have hfront := halone.append_blank (b := ' ') rfl (spaced (t' :: ts)).toList
      have hstep := Lexes.step hfront hblank
      simpa [spaced, n] using hstep

end Boundary

/-- The tokens of a source text are read back from their lexemes, written out with blanks between
them; there are no errors then. -/
theorem items_spaced (source : String) :
    ∃ (again : List Token) (line : Nat),
      items (spaced (properTokens source)) =
        again.map Item.token ++ [.token (.endOfInput line)] ∧
      again.map Token.content = (properTokens source).map Token.content := by
  have hlexes := lexes_itemsFrom 1 source.toList
  have hstandalone : ∀ t ∈ properTokens source, Standalone t := by
    intro t ht
    obtain ⟨hmem, hend⟩ := List.mem_filter.1 ht
    obtain ⟨item, hitem, htoken⟩ := List.mem_filterMap.1 hmem
    cases item with
    | error => cases htoken
    | token t' =>
      obtain rfl : t' = t := by simpa [Item.token?] using htoken
      exact hlexes.standalone hitem (by simpa using hend)
  obtain ⟨again, line, hagain, hcontent⟩ := lexes_spaced hstandalone 1
  exact ⟨again, line, hagain.itemsFrom_eq.symm, hcontent⟩

example : spaced (properTokens "a=/ /\"// \"7.?") = "a = / / \"// \" 7 ." := by decide +kernel

/-- If no quote is left open in a text, what is written on the lines behind it is read as it would
be alone, that many lines further down, and the items of the text stay what they are. -/
theorem items_append_line {p : String} (hp : ∀ line, Item.error line .unterminated ∉ items p)
    (q : String) :
    ∃ front, items p = front ++ [.token (.endOfInput (1 + p.toList.count '\n'))] ∧
      items (p ++ "\n" ++ q) =
        front ++ (items q).map (Item.lower (1 + p.toList.count '\n')) := by
  have hq := lexes_itemsFrom (1 + p.toList.count '\n' + 1) q.toList
  obtain ⟨front, hfront, hboth⟩ := (lexes_itemsFrom 1 p.toList).append_line hp hq
  refine ⟨front, hfront, ?_⟩
  have hlower : itemsFrom (1 + (1 + p.toList.count '\n')) (pieces q.toList) =
      (items q).map (Item.lower (1 + p.toList.count '\n')) :=
    itemsFrom_lower _ _
  have htext : (p ++ "\n" ++ q).toList = p.toList ++ '\n' :: q.toList := by simp
  rw [items, htext, ← hboth.itemsFrom_eq, ← hlower]
  congr 2
  omega

theorem items_append_line_open :
    (∀ line, Item.error line .unterminated ∉ items "\n!#") ∧
      items ("\n!#" ++ "\n" ++ "=\"") =
        [.token ⟨.bang, "!", none, 2⟩, .error 2 (.unexpected '#'), .token ⟨.equal, "=", none, 3⟩,
          .error 3 .unterminated, .token (.endOfInput 3)] := by
  have hitems : items "\n!#" =
      [.token ⟨.bang, "!", none, 2⟩, .error 2 (.unexpected '#')] ++ [.token (.endOfInput 2)] := by
    decide +kernel
  have hclosed : ∀ line, Item.error line .unterminated ∉ items "\n!#" := by simp [hitems]
  obtain ⟨front, hfront, hboth⟩ := items_append_line hclosed "=\""
  obtain rfl := List.append_cancel_right (hitems.symm.trans hfront)
  refine ⟨hclosed, hboth.trans ?_⟩
  decide +kernel

end Source

end ClassScript
