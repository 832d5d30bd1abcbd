import ClassScript.Proofs.Source.LexicalGrammar

/-! # Longest match

The pieces of a source text are what the lexical grammar takes off its front one after the other, so
the items of the text are those of the grammar, which has no others for it.
-/
namespace ClassScript.Source

variable {c : Char} {cs text rest : List Char} {kind : Token.Kind}
  {literal : Option Token.Literal} {line : Nat}

/-- A run of characters of a class is no longer than the longest one. -/
theorem length_le_takeWhile {p : Char → Bool} (h : ∀ d ∈ text, p d = true) (hfront : text <+: cs) :
    text.length ≤ (cs.takeWhile p).length := by
  obtain ⟨rest, rfl⟩ := hfront
  rw [List.takeWhile_append_of_pos h, List.length_append]
  omega

theorem run_of_not_mem (h : c ∉ text) : ∀ d ∈ text, (d != c) = true := by
  intro d hd
  rw [bne_iff_ne]
  rintro rfl
  exact h hd

theorem not_mem_run (c : Char) (cs : List Char) : c ∉ cs.takeWhile (· != c) := by
  intro hmem
  simpa using List.mem_takeWhile_imp hmem

theorem skips_cons : Skips (c :: cs) ↔ isBlank c = true ∨ c = '/' ∧ cs.head? = some '/' := by
  have hslash : ['/', '/'] <+: c :: cs ↔ c = '/' ∧ cs.head? = some '/' := by
    cases cs <;> simp [List.cons_prefix_cons, eq_comm]
  rw [Skips, hslash]
  constructor
  · rintro (⟨c', rest, heq, hc⟩ | h)
    · obtain ⟨rfl, -⟩ := List.cons.inj heq
      exact .inl hc
    · exact .inr h
  · rintro (hc | h)
    · exact .inl ⟨c, cs, rfl, hc⟩
    · exact .inr h

theorem isBlank_of_front (h : ¬ Skips (c :: cs)) : isBlank c = false := by
  simpa using fun hc => h (skips_cons.2 (.inl hc))

theorem prefix_cutNumber (c : Char) (cs : List Char) :
    c :: cs.takeWhile isDigit <+: (cutNumber c cs).1.text := by
  unfold cutNumber
  split
  · split
    · simp [cutWhile]
    · exact List.prefix_rfl
  · exact List.prefix_rfl

theorem numeral_cutNumber (hc : isDigit c = true) (cs : List Char) :
    ∃ x, Numeral (cutNumber c cs).1.text x := by
  have hwhole : ∀ d ∈ c :: cs.takeWhile isDigit, isDigit d = true := by
    intro d hd
    rcases List.mem_cons.1 hd with rfl | hd
    · exact hc
    · exact List.mem_takeWhile_imp hd
  unfold cutNumber
  split
  next d rest hrest =>
    split
    next hd =>
      have hplaces : ∀ e ∈ d :: rest.takeWhile isDigit, isDigit e = true := by
        intro e he
        rcases List.mem_cons.1 he with rfl | he
        · exact hd
        · exact List.mem_takeWhile_imp he
      have hnumeral := Numeral.fraction (List.cons_ne_nil _ _) hwhole (List.cons_ne_nil _ _) hplaces
      exact ⟨_, by simpa [cutWhile] using hnumeral⟩
    next => exact ⟨_, .whole (List.cons_ne_nil _ _) hwhole⟩
  next => exact ⟨_, .whole (List.cons_ne_nil _ _) hwhole⟩

theorem longest_cutNumber {x : Number} (hc : isDigit c = true) (h : Numeral text x)
    (hfront : text <+: c :: cs) : text.length ≤ (cutNumber c cs).1.text.length := by
  have htake : (c :: cs).takeWhile isDigit = c :: cs.takeWhile isDigit :=
    List.takeWhile_cons_of_pos hc
  have hdrop : (c :: cs).dropWhile isDigit = cs.dropWhile isDigit := List.dropWhile_cons_of_pos hc
  cases h with
  | whole hne hdigits =>
    have hlength := length_le_takeWhile hdigits hfront
    rw [htake] at hlength
    exact hlength.trans (prefix_cutNumber c cs).length_le
  | @fraction digits places hne hdigits hsome hplaces =>
    obtain ⟨rest, hrest⟩ := hfront
    obtain ⟨d, places, rfl⟩ := List.exists_cons_of_ne_nil hsome
    obtain ⟨hd, hplaces⟩ := List.forall_mem_cons.1 hplaces
    -- the digits in front of the point are all there are
    rw [← hrest, List.append_assoc, List.takeWhile_append_of_pos hdigits] at htake
    rw [← hrest, List.append_assoc, List.dropWhile_append_of_pos hdigits] at hdrop
    have hpoint : isDigit '.' = false := by decide
    simp only [List.cons_append, List.takeWhile_cons, List.dropWhile_cons, hpoint] at htake hdrop
    unfold cutNumber
    rw [← hdrop, ← htake]
    simp [cutWhile, hd, List.takeWhile_append_of_pos hplaces]

/-- A token that nothing longer at its place can be. -/
theorem Takes.longest (happend : text ++ rest = c :: cs) (hfront : ¬ Skips (c :: cs))
    (h : Lexeme text kind literal)
    (hlongest : ∀ cs' kind' literal', Lexeme (c :: cs') kind' literal' → c :: cs' <+: c :: cs →
      cs'.length < text.length) :
    Takes line text rest (some (.token ⟨kind, String.ofList text, literal, line⟩)) := by
  refine .token (happend ▸ hfront) h ?_
  rw [happend]
  intro text' kind' literal' h' hfront'
  obtain ⟨c', cs', rfl⟩ := List.exists_cons_of_ne_nil h'.ne_nil
  obtain ⟨rfl, -⟩ := List.cons_prefix_cons.1 hfront'
  exact hlongest cs' kind' literal' h' hfront'

theorem takes_cutNumber (hc : isDigit c = true) (hfront : ¬ Skips (c :: cs)) :
    Takes line (cutNumber c cs).1.text (cutNumber c cs).2 ((cutNumber c cs).1.item? line) := by
  obtain ⟨x, hx⟩ := numeral_cutNumber hc cs
  simp only [Piece.item?, shape_cutNumber, ← hx.value]
  refine .longest (cutNumber_append c cs) hfront (.number hx) ?_
  intro cs' kind' literal' h' hfront'
  obtain ⟨y, hy, -⟩ := h'.of_digit hc
  exact longest_cutNumber hc hy hfront'

theorem takes_cutWord (hc : isWordStart c = true) (hfront : ¬ Skips (c :: cs)) :
    Takes line (cutWhile .word isWordChar [c] cs).1.text (cutWhile .word isWordChar [c] cs).2
      ((cutWhile .word isWordChar [c] cs).1.item? line) := by
  have hword : IsWord (c :: cs.takeWhile isWordChar) :=
    isWord_cons.2 ⟨hc, fun d hd => List.mem_takeWhile_imp hd⟩
  refine .longest (cutWhile_append _ _ _ _) hfront (.word hword) ?_
  intro cs' kind' literal' h' hfront'
  obtain ⟨hword', -⟩ := h'.of_letter hc
  have hlength := length_le_takeWhile (isWord_cons.1 hword').2 (List.cons_prefix_cons.1 hfront').2
  simpa [cutWhile, Nat.lt_succ_iff] using hlength

theorem takes_cutString (hfront : ¬ Skips ('"' :: cs)) :
    Takes line (cutString '"' cs).1.text (cutString '"' cs).2
      ((cutString '"' cs).1.item? line) := by
  have hbody : '"' ∉ cs.takeWhile (· != '"') := not_mem_run '"' cs
  have happend := cutString_append '"' cs
  have hclose := List.head?_dropWhile_not (· != '"') cs
  unfold cutString at happend ⊢
  split
  next hrest => exact .unterminated hbody
  next close rest hrest =>
    rw [hrest] at happend hclose
    obtain rfl : close = '"' := by simpa using hclose
    have hquoted : quotedText ('"' :: cs.takeWhile (· != '"') ++ ['"']) =
        String.ofList (cs.takeWhile (· != '"')) := by simp [quotedText]
    simp only [Piece.item?, hquoted]
    refine .longest happend hfront (.string hbody) fun cs' kind' literal' h' hfront' => ?_
    obtain ⟨body, rfl, hbody', -⟩ := h'.of_quote
    have hinside := (List.prefix_append body ['"']).trans (List.cons_prefix_cons.1 hfront').2
    have hlength := length_le_takeWhile (run_of_not_mem hbody') hinside
    simp only [List.length_append, List.length_cons, List.length_nil]
    omega

theorem takes_cutComment (hslash : cs.head? = some '/') :
    Takes line (cutWhile .comment (· != '\n') ['/'] cs).1.text
      (cutWhile .comment (· != '\n') ['/'] cs).2 none := by
  obtain ⟨cs, rfl⟩ : ∃ cs', cs = '/' :: cs' := List.head?_eq_some_iff.1 hslash
  have hend := List.head?_dropWhile_not (· != '\n') cs
  refine .comment (not_mem_run '\n' cs) fun c hc => ?_
  have hc : (cs.dropWhile (· != '\n')).head? = some c := by simpa [cutWhile] using hc
  simpa [hc] using hend

theorem takes_cutSymbol (hfront : ¬ Skips (c :: cs)) (hdigit : isDigit c = false)
    (hletter : isWordStart c = false) (hquote : c ≠ '"') :
    Takes line (cutSymbol c cs).1.text (cutSymbol c cs).2 ((cutSymbol c cs).1.item? line) := by
  have hinversion (cs' : List Char) (kind : Token.Kind) (literal : Option Token.Literal)
      (h : Lexeme (c :: cs') kind literal) : ∃ pair, symbolOf? c = some pair ∧
        (cs' = [] ∨ cs' = ['='] ∧ some kind = pair.2) := by
    obtain ⟨hmem, -⟩ := h.of_other hdigit hletter hquote
    obtain ⟨c', pair, hpair, ⟨htext, -⟩ | ⟨htext, hkind⟩⟩ := mem_symbols hmem
    · obtain ⟨rfl, rfl⟩ := List.cons.inj htext
      exact ⟨pair, hpair, .inl rfl⟩
    · obtain ⟨rfl, rfl⟩ := List.cons.inj htext
      exact ⟨pair, hpair, .inr ⟨rfl, hkind⟩⟩
  unfold cutSymbol
  split
  next kind rest hpair =>
    have hsymbol := (mem_symbols_of_symbolOf? hpair).2 kind rfl
    refine .longest rfl hfront (.symbol hsymbol) fun cs' kind' literal' h' hfront' => ?_
    obtain ⟨-, -, rfl | ⟨rfl, -⟩⟩ := hinversion cs' kind' literal' h' <;> simp
  next kind second hpair hnot =>
    have hsymbol := (mem_symbols_of_symbolOf? hpair).1
    refine .longest rfl hfront (.symbol hsymbol) fun cs' kind' literal' h' hfront' => ?_
    obtain ⟨pair, hpair', rfl | ⟨rfl, hkind⟩⟩ := hinversion cs' kind' literal' h'
    · simp
    · -- with the equals sign it would be the longer symbol
      obtain rfl := Option.some.inj (hpair.symm.trans hpair')
      obtain ⟨rest, hrest⟩ := (List.cons_prefix_cons.1 hfront').2
      exact (hnot kind' rest hrest.symm hkind.symm).elim
  next hnone =>
    refine .unexpected hfront hquote fun text kind literal h hfront' => ?_
    obtain ⟨c', cs', rfl⟩ := List.exists_cons_of_ne_nil h.ne_nil
    obtain ⟨rfl, -⟩ := List.cons_prefix_cons.1 hfront'
    obtain ⟨pair, hpair, -⟩ := hinversion cs' kind literal h
    simp [hnone] at hpair

/-- What is cut off a text is what the grammar takes off it, unless it is a run of blanks. -/
theorem takes_cut (line : Nat) (hblank : isBlank c = false) :
    Takes line (cut c cs).1.text (cut c cs).2 ((cut c cs).1.item? line) := by
  have hskips : Skips (c :: cs) ↔ c = '/' ∧ cs.head? = some '/' := by simp [skips_cons, hblank]
  unfold cut
  split
  next h => simp [hblank] at h
  split
  next hdigit =>
    refine takes_cutNumber hdigit fun hskip => ?_
    simp [(hskips.1 hskip).1, isDigit] at hdigit
  split
  next hletter =>
    refine takes_cutWord hletter fun hskip => ?_
    simp [(hskips.1 hskip).1, isWordStart] at hletter
  split
  next hquote =>
    subst hquote
    exact takes_cutString fun hskip => absurd (hskips.1 hskip).1 (by decide)
  split
  next hcomment =>
    obtain ⟨rfl, hslash⟩ := hcomment
    exact takes_cutComment hslash
  next hdigit hletter hquote hcomment =>
    exact takes_cutSymbol (fun hskip => hcomment (hskips.1 hskip)) (by simpa using hdigit)
      (by simpa using hletter) hquote

theorem piecesWithin_succ (n : Nat) (c : Char) (cs : List Char) :
    piecesWithin (n + 1) (c :: cs) = (cut c cs).1 :: piecesWithin n (cut c cs).2 := rfl

/-- Any bound on the number of pieces will do. -/
theorem piecesWithin_eq {n m : Nat} (hn : cs.length ≤ n) (hm : cs.length ≤ m) :
    piecesWithin n cs = piecesWithin m cs := by
  induction n generalizing m cs with
  | zero =>
    obtain rfl : cs = [] := by simpa using hn
    cases m <;> rfl
  | succ n ih =>
    cases cs with
    | nil => cases m <;> rfl
    | cons c cs =>
      obtain ⟨m, rfl⟩ : ∃ m', m = m' + 1 := ⟨m - 1, by simp at hm; omega⟩
      have hlength := cut_length c cs
      simp only [List.length_cons] at hn hm
      rw [piecesWithin_succ, piecesWithin_succ, ih (m := m) (by omega) (by omega)]

/-- The pieces of a text are the first one and those of the rest. -/
theorem pieces_cons (c : Char) (cs : List Char) :
    pieces (c :: cs) = (cut c cs).1 :: pieces (cut c cs).2 := by
  have hlength := cut_length c cs
  rw [pieces, pieces, List.length_cons, piecesWithin_succ, piecesWithin_eq hlength (Nat.le_refl _)]

theorem itemsFrom_cons (line : Nat) (p : Piece) (ps : List Piece) :
    itemsFrom line (p :: ps) =
      (p.item? (line + p.newlines)).toList ++ itemsFrom (line + p.newlines) ps := by
  rw [itemsFrom]
  cases p.item? (line + p.newlines) <;> rfl

theorem itemsFrom_run (line : Nat) (hc : isBlank c = true) :
    itemsFrom line (pieces (c :: cs)) =
      itemsFrom (line + (c :: cs.takeWhile isBlank).count '\n')
        (pieces (cs.dropWhile isBlank)) := by
  have hcut : cut c cs = (⟨.blank, c :: cs.takeWhile isBlank⟩, cs.dropWhile isBlank) := by
    simp [cut, hc, cutWhile]
  rw [pieces_cons, hcut, itemsFrom_cons]
  rfl

/-- It makes no difference whether blanks are skipped one by one or all at once. -/
theorem itemsFrom_blank (line : Nat) (hc : isBlank c = true) :
    itemsFrom line (pieces (c :: cs)) = itemsFrom (line + [c].count '\n') (pieces cs) := by
  rw [itemsFrom_run line hc]
  cases cs with
  | nil => rfl
  | cons b cs =>
    by_cases hb : isBlank b = true
    · rw [List.takeWhile_cons_of_pos hb, List.dropWhile_cons_of_pos hb, itemsFrom_run _ hb,
        Nat.add_assoc, ← List.count_append]
      rfl
    · rw [List.takeWhile_cons_of_neg hb, List.dropWhile_cons_of_neg hb]

/-- The grammar yields the items of the pieces. -/
theorem lexes_itemsFrom (line : Nat) (cs : List Char) :
    Lexes line cs (itemsFrom line (pieces cs)) := by
  induction hn : cs.length using Nat.strongRecOn generalizing line cs with
  | ind n ih =>
    cases cs with
    | nil => exact .finish
    | cons c cs =>
      by_cases hc : isBlank c = true
      · rw [itemsFrom_blank line hc]
        exact .step (.blank hc) (ih cs.length (by simp [← hn]) _ cs rfl)
      · have hlength := cut_length c cs
        have hrest := ih (cut c cs).2.length (by simp only [List.length_cons] at hn; omega)
          (line + (cut c cs).1.newlines) _ rfl
        have hstep := Lexes.step (takes_cut _ (by simpa using hc)) hrest
        rw [pieces_cons, itemsFrom_cons]
        rwa [cut_append] at hstep

/-- A quote that is not closed starts no token. -/
theorem no_lexeme_unclosed {body : List Char} (hbody : '"' ∉ body) (h : Lexeme text kind literal) :
    ¬ text <+: '"' :: body := by
  intro hfront
  obtain ⟨c, cs, rfl⟩ := List.exists_cons_of_ne_nil h.ne_nil
  obtain ⟨rfl, hinside⟩ := List.cons_prefix_cons.1 hfront
  obtain ⟨body', rfl, -⟩ := h.of_quote
  exact hbody (hinside.subset (by simp))

theorem cut_comment (htext : '\n' ∉ text) (hrest : ∀ c ∈ rest.head?, c = '\n') :
    (cut '/' ('/' :: (text ++ rest))).1 = ⟨.comment, '/' :: '/' :: text⟩ := by
  have hrun := run_of_not_mem htext
  have hstop : rest.takeWhile (· != '\n') = [] := by
    cases rest with
    | nil => rfl
    | cons c rest => simp [hrest c rfl]
  have hcut : cut '/' ('/' :: (text ++ rest)) =
      cutWhile .comment (· != '\n') ['/'] ('/' :: (text ++ rest)) := by
    simp [cut, isBlank, isDigit, isWordStart]
  rw [hcut]
  simp [cutWhile, List.takeWhile_append_of_pos hrun, hstop]

theorem cut_unclosed (htext : '"' ∉ text) : (cut '"' text).1 = ⟨.unclosed, '"' :: text⟩ := by
  have hrun := run_of_not_mem htext
  have hcut : cut '"' text = cutString '"' text := by simp [cut, isBlank, isDigit, isWordStart]
  rw [hcut, cutString, List.dropWhile_eq_nil_iff.2 hrun, List.takeWhile_eq_self_iff.2 hrun]

/-- The items of a text, if its first piece is known. -/
theorem itemsFrom_cut {item? : Option Item} (happend : text ++ rest = c :: cs)
    (htext : (cut c cs).1.text = text)
    (hitem : (cut c cs).1.item? (line + text.count '\n') = item?) :
    itemsFrom line (pieces (text ++ rest)) =
      item?.toList ++ itemsFrom (line + text.count '\n') (pieces rest) := by
  have hrest : (cut c cs).2 = rest := by
    have hboth := (cut_append c cs).trans happend.symm
    rw [htext] at hboth
    exact List.append_cancel_left hboth
  rw [happend, pieces_cons, itemsFrom_cons, Piece.newlines, htext, hitem, hrest]

namespace Takes

variable {item? : Option Item} {text' rest' : List Char}

theorem ne_nil (h : Takes line text rest item?) : text ≠ [] := by
  cases h with
  | token hfront h => exact h.ne_nil
  | _ => simp

/-- Where a token starts, the longest one is taken. -/
theorem of_lexeme (h : Takes line text rest item?) (hfront : ¬ Skips (text ++ rest))
    (htext : Lexeme text' kind literal) (happend : text' ++ rest' = text ++ rest)
    (hlongest : ∀ word kind' literal', Lexeme word kind' literal' → word <+: text' ++ rest' →
      word.length ≤ text'.length) :
    text' = text ∧ item? = some (.token ⟨kind, String.ofList text, literal, line⟩) := by
  have hinside : text' <+: text ++ rest := ⟨rest', happend⟩
  cases h with
  | blank h => exact absurd (.inl ⟨_, _, rfl, h⟩) hfront
  | comment h => exact absurd (.inr ⟨_, rfl⟩) hfront
  | token _ h hlongest' =>
    have hle := hlongest' _ _ _ htext hinside
    have hge := hlongest _ _ _ h ⟨rest, happend.symm⟩
    obtain ⟨rfl, -⟩ := List.append_inj happend (Nat.le_antisymm hle hge)
    obtain ⟨rfl, rfl⟩ := htext.unique h
    exact ⟨rfl, rfl⟩
  | unterminated h =>
    rw [List.append_nil] at hinside
    exact absurd hinside (no_lexeme_unclosed h htext)
  | unexpected _ _ hnone => exact absurd hinside (hnone _ _ _ htext)

/-- Where no token starts and no quote stands, one character is taken. -/
theorem of_stray (h : Takes line text rest item?) (hfront : ¬ Skips (text ++ rest))
    (hquote : c ≠ '"') (happend : c :: rest' = text ++ rest)
    (hnone : ∀ word kind' literal', Lexeme word kind' literal' → ¬ word <+: c :: rest') :
    [c] = text ∧ item? = some (.error line (.unexpected c)) := by
  cases h with
  | blank h => exact absurd (.inl ⟨_, _, rfl, h⟩) hfront
  | comment h => exact absurd (.inr ⟨_, rfl⟩) hfront
  | token _ h => exact absurd ⟨rest, happend.symm⟩ (hnone _ _ _ h)
  | unterminated h => exact absurd (List.cons.inj happend).1 hquote
  | unexpected _ _ _ =>
    obtain ⟨rfl, -⟩ := List.cons.inj happend
    exact ⟨rfl, rfl⟩

/-- What the grammar takes off a text is what the pieces of the text start with. -/
theorem itemsFrom_append (h : Takes (line + text.count '\n') text rest item?) :
    itemsFrom line (pieces (text ++ rest)) =
      item?.toList ++ itemsFrom (line + text.count '\n') (pieces rest) := by
  have hne : text ++ rest ≠ [] := List.append_ne_nil_of_left_ne_nil h.ne_nil rest
  obtain ⟨c, cs, hcs⟩ := List.exists_cons_of_ne_nil hne
  have hsame := hcs.trans (cut_append c cs).symm
  cases h with
  | blank h => exact itemsFrom_blank line h
  | comment h hrest =>
    have hcut := cut_comment h hrest
    exact itemsFrom_cut rfl (congrArg Piece.text hcut) (congrArg (Piece.item? · _) hcut)
  | unterminated h =>
    have hcut := cut_unclosed h
    exact itemsFrom_cut (List.append_nil _) (congrArg Piece.text hcut)
      (congrArg (Piece.item? · _) hcut)
  | token hfront h hlongest =>
    have hblank := isBlank_of_front (hcs ▸ hfront)
    obtain ⟨htext, hitem⟩ := (takes_cut _ hblank).of_lexeme (hsame ▸ hfront) h hsame hlongest
    exact itemsFrom_cut hcs htext.symm (htext ▸ hitem)
  | unexpected hfront hquote hnone =>
    obtain ⟨rfl, rfl⟩ := List.cons.inj hcs
    have hblank := isBlank_of_front hfront
    obtain ⟨htext, hitem⟩ := (takes_cut _ hblank).of_stray (hsame ▸ hfront) hquote hsame hnone
    exact itemsFrom_cut hcs htext.symm hitem

end Takes

theorem Lexes.itemsFrom_eq {items : List Item} (h : Lexes line cs items) :
    items = itemsFrom line (pieces cs) := by
  induction h with
  | finish => rfl
  | step h hrest ih => rw [ih, h.itemsFrom_append]

/-- The items of a source text are those of the lexical grammar and no others, and the errors among
them say what is wrong. -/
theorem items_longest_match (source : String) :
    (∀ is, Lexes 1 source.toList is ↔ is = items source) ∧
      ∀ line, (Item.error line .unterminated).report? =
          some (.lexical line "Unterminated string.") ∧
        ∀ c, (Item.error line (.unexpected c)).report? =
          some (.lexical line ("Unexpected character: " ++ c.toString)) := by
  refine ⟨fun is => ⟨Lexes.itemsFrom_eq, ?_⟩, fun line => ⟨rfl, fun c => rfl⟩⟩
  rintro rfl
  exact lexes_itemsFrom 1 source.toList

example : (tokens "7.8.//9\n./\"x\n\"").map (fun t => (t.lexeme, t.line)) =
    [("7.8", 1), (".", 1), (".", 2), ("/", 2), ("\"x\n\"", 3), ("", 3)] := by decide +kernel

end ClassScript.Source
