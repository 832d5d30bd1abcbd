import ClassScript.Proofs.Scanning.Steps
import ClassScript.Proofs.Source.Separation

/-! # Scanning a token

A call of the scanner takes from the bytes what the lexical grammar takes from the characters.  The
scanner may stand between two bytes of a character only while it takes that character.
-/
namespace ClassScript

open Source String

variable {source : String} {s s' : Scanner} {p : source.Pos} {c : Char}
  {front text rest cs : List Char} {n : Nat}

/-- The item of a text that was taken: the error that was found, or the token that is pending. -/
def Scanner.offered (s : Scanner) (error : Option Item) (text : List Char) : Option Item :=
  error.or (s.pending.map fun (kind, literal) => .token ⟨kind, ofList text, literal, s.line⟩)

/-- The scanner has come to `s'` by taking a text and what the lexical grammar takes with it. -/
structure Scanner.Took (s s' : Scanner) (p : source.Pos) (front text rest : List Char)
    (item? : Option Item) : Prop extends s'.Within p front text rest where
  line : s'.line = s.line + text.count '\n'
  yields : s'.yields = s.yields
  cuts : ∀ e ∈ s'.cuts, e ∈ s.cuts ∨ e.Sound source
  takes : Takes s'.line text rest item?

/-- A text without a line end has been taken, and there was one cut. -/
theorem Scanner.Took.of_cut {i : Nat} {pending : Option (Token.Kind × Option Token.Literal)}
    {e : Extent} {item? : Option Item}
    (h : { s with position := i : Scanner }.Within p front text rest)
    (hcount : text.count '\n' = 0) (hsound : e.Sound source)
    (htakes : Takes s.line text rest item?) :
    s.Took { s with position := i, pending, cuts := e :: s.cuts } p front text rest item? where
  parts := h.parts
  start := h.start
  position := h.position
  line := by rw [hcount]; rfl
  yields := rfl
  cuts := List.forall_mem_cons.2 ⟨.inr hsound, fun _ hcut => .inl hcut⟩
  takes := htakes

/-- What is scanned is what the lexical grammar takes off the front of the text `cs`, which starts
at the position. -/
def Scan.TakesOff (r : Scan (Option Item)) (s : Scanner) (p : source.Pos)
    (front cs : List Char) : Prop :=
  ∃ e s' text rest, r source s = some (e, s') ∧ text ++ rest = cs ∧
    s.Took s' p front text rest (s'.offered e text)

/-- Without a digit behind a point, a number has no fraction. -/
theorem Source.cutNumber_whole
    (h : ∀ d rest, cs.dropWhile isDigit = '.' :: d :: rest → isDigit d = false) :
    cutNumber c cs = (⟨.number, c :: cs.takeWhile isDigit⟩, cs.dropWhile isDigit) := by
  unfold cutNumber
  split
  next d rest hrest => rw [h d rest hrest, if_neg Bool.false_ne_true, hrest]
  next => rfl

theorem Source.not_skips (hslash : c ≠ '/') (hblank : ¬isBlank c = true) : ¬Skips (c :: cs) := by
  simp [skips_cons, hslash, hblank]

/-- No line ends where a token or an unexpected character stands. -/
theorem Source.count_front (h : ¬Skips (c :: cs)) : [c].count '\n' = 0 := by
  refine List.count_eq_zero.2 fun hmem => ?_
  obtain rfl := List.mem_singleton.1 hmem
  exact h (.inl ⟨_, _, rfl, rfl⟩)

namespace Scan

theorem fraction_places {d : Char} (h : s.Within p front text ('.' :: d :: rest))
    (hd : isDigit d = true) (hn : (encode (d :: rest)).length < n) :
    ∃ i, fraction n source s = some ((), { s with position := i }) ∧
      { s with position := i : Scanner }.Within p front
        (text ++ '.' :: d :: rest.takeWhile isDigit) (rest.dropWhile isDigit) := by
  obtain ⟨b, hpeek, hb⟩ := peek_within h
  obtain ⟨b', hpeekNext, hb'⟩ := peekNext_within h (by decide)
  have hpoint : (ascii b == '.') = true := hb (· == '.') (byBytes_eq (by decide)) (by decide)
  have hdigit : isDigit (ascii b') = true := (hb' isDigit byBytes_isDigit (by decide)).trans hd
  obtain ⟨hadvance, hwithin⟩ := h.advance (by decide)
  obtain ⟨i, hskip, hwithin'⟩ := hwithin.skipWhile byBytes_isDigit (by decide) hn
  rw [fraction, bind_eq hpeek, if_pos hpoint, bind_eq hpeekNext, if_pos hdigit, bind_eq hadvance]
  refine ⟨i, hskip, ?_⟩
  rwa [List.takeWhile_cons_of_pos hd, List.dropWhile_cons_of_pos hd, List.append_assoc] at hwithin'

theorem fraction_absent (h : s.Within p front text rest)
    (hnone : ∀ d rest', rest = '.' :: d :: rest' → isDigit d = false) :
    fraction n source s = some ((), s) := by
  obtain ⟨b, hpeek, hb⟩ := peek_within h
  rw [fraction, bind_eq hpeek, hb (· == '.') (byBytes_eq (by decide)) (by decide)]
  split
  next hpoint =>
    obtain ⟨c, hc, hpoint⟩ := (Option.any_eq_true _ _).1 hpoint
    obtain rfl : c = '.' := eq_of_beq hpoint
    obtain ⟨rest, rfl⟩ := List.head?_eq_some_iff.1 hc
    obtain ⟨b', hpeekNext, hb'⟩ := peekNext_within h (by decide)
    rw [bind_eq hpeekNext, hb' isDigit byBytes_isDigit (by decide), if_neg]
    · rfl
    · intro hdigit
      obtain ⟨d, hd, hdigit⟩ := (Option.any_eq_true _ _).1 hdigit
      obtain ⟨rest, rfl⟩ := List.head?_eq_some_iff.1 hd
      simp [hnone d rest rfl] at hdigit
  next => rfl

theorem fraction_within (h : s.Within p front (c :: cs.takeWhile isDigit) (cs.dropWhile isDigit))
    (hn : (encode (cs.dropWhile isDigit)).length < n) :
    ∃ i, fraction n source s = some ((), { s with position := i }) ∧
      { s with position := i : Scanner }.Within p front (cutNumber c cs).1.text
        (cutNumber c cs).2 := by
  by_cases hsome : ∃ d rest, cs.dropWhile isDigit = '.' :: d :: rest ∧ isDigit d = true
  · obtain ⟨d, rest, hrest, hd⟩ := hsome
    rw [hrest] at h hn
    rw [encode_cons, List.length_append] at hn
    obtain ⟨i, hfraction, hwithin⟩ :=
      fraction_places h hd (Nat.lt_of_le_of_lt (Nat.le_add_left _ _) hn)
    have hcut : cutNumber c cs = (⟨.number, c :: cs.takeWhile isDigit ++ '.' :: d ::
        rest.takeWhile isDigit⟩, rest.dropWhile isDigit) := by
      simp [cutNumber, cutWhile, hrest, hd]
    rw [hcut]
    exact ⟨i, hfraction, hwithin⟩
  · have hnone : ∀ d rest, cs.dropWhile isDigit = '.' :: d :: rest → isDigit d = false :=
      fun d rest hrest => by simpa using fun hd => hsome ⟨d, rest, hrest, hd⟩
    rw [cutNumber_whole hnone]
    exact ⟨s.position, fraction_absent h hnone, h⟩

theorem number_within (h : s.Within p front [c] cs) (hn : (encode cs).length < n) :
    ∃ i, { s with position := i : Scanner }.Within p front (cutNumber c cs).1.text
        (cutNumber c cs).2 ∧
      number n source s = some ((), { s with
        position := i
        pending := some (.number, some (.number (decimalOf (cutNumber c cs).1.text).toNumber))
        cuts := ⟨s.start, i⟩ :: s.cuts }) := by
  have hle : (encode (cs.dropWhile isDigit)).length ≤ (encode cs).length := by
    conv => rhs; rw [← List.takeWhile_append_dropWhile (p := isDigit) (l := cs)]
    rw [encode_append, List.length_append]
    exact Nat.le_add_left _ _
  obtain ⟨i, hskip, hwithin⟩ := h.skipWhile byBytes_isDigit (by decide) hn
  obtain ⟨j, hfraction, hwithin'⟩ := fraction_within hwithin (Nat.lt_of_le_of_lt hle hn)
  obtain ⟨hcut, -⟩ := hwithin'.cutText
  refine ⟨j, hwithin', ?_⟩
  rw [number, bind_eq hskip, bind_eq hfraction, bind_scanner, bind_eq hcut, toList_ofList]
  rfl

theorem lookup_keywords (text : List Char) :
    (keywords.lookup (encode text)).getD .identifier = Token.Kind.ofWord (ofList text) := by
  have htable (table : List (String × Token.Kind)) :
      (table.map fun entry => (entry.1.toUTF8.data.toList, entry.2)).lookup (encode text) =
        table.lookup (ofList text) := by
    induction table with
    | nil => rfl
    | cons entry table ih =>
      have hsame : (encode text == entry.1.toUTF8.data.toList) = (ofList text == entry.1) := by
        rw [Bool.eq_iff_iff, beq_iff_eq, beq_iff_eq, ← toUTF8_ofList, toUTF8_inj]
      rw [List.map_cons, List.lookup_cons, List.lookup_cons, hsame, ih]
  rw [keywords, htable]
  rfl

theorem word_within (h : s.Within p front [c] cs) (hn : (encode cs).length < n) :
    ∃ i, { s with position := i : Scanner }.Within p front (c :: cs.takeWhile isWordChar)
        (cs.dropWhile isWordChar) ∧
      word n source s = some ((), { s with
        position := i
        pending := some (Token.Kind.ofWord (ofList (c :: cs.takeWhile isWordChar)), none)
        cuts := ⟨s.start, i⟩ :: s.cuts }) := by
  obtain ⟨i, hskip, hwithin⟩ := h.skipWhile byBytes_isWordChar (by decide) hn
  have hfaces := h.parts.faces
  rw [← List.takeWhile_append_dropWhile (p := isWordChar) (l := cs), ← List.append_assoc,
    encode_append, ← h.start] at hfaces
  have hi : i = s.start + (encode ([c] ++ cs.takeWhile isWordChar)).length := by
    rw [h.start]
    exact hwithin.position
  have hcut := cutBytes_eq (s := { s with position := i }) hfaces
  rw [← hi] at hcut
  refine ⟨i, hwithin, ?_⟩
  rw [word, bind_eq hskip, bind_scanner, bind_eq hcut, lookup_keywords]
  rfl

/-- Everything up to the line end is skipped behind two slashes. -/
theorem slash_comment (h : s.Within p front ['/'] ('/' :: cs)) :
    ∃ i, { s with position := i : Scanner }.Within p front
        ('/' :: '/' :: cs.takeWhile (· != '\n')) (cs.dropWhile (· != '\n')) ∧
      slash source s = some ((), { s with
        position := i
        cuts := ⟨s.position + 1, source.utf8ByteSize⟩ :: s.cuts }) := by
  obtain ⟨hmatch, hwithin⟩ := matchByte_within h (by decide)
  have hskip := skipLine_eq hwithin.faces
  rw [(byBytes_ne (by decide)).takeWhile_encode] at hskip
  refine ⟨_, hwithin.run, ?_⟩
  rw [slash, bind_eq hmatch, if_pos rfl]
  exact hskip

theorem slash_symbol (h : s.Within p front ['/'] cs) (hcs : cs.head? ≠ some '/') :
    slash source s = some ((), { s with pending := some (.slash, none) }) := by
  rw [slash, bind_eq (matchByte_absent h (by decide) (by decide) hcs)]
  rfl

theorem emitEither_double {double single : Token.Kind} (h : s.Within p front [c] ('=' :: cs)) :
    emitEither '='.toUInt8 double single source s =
        some ((), { s with position := s.position + 1, pending := some (double, none) }) ∧
      { s with position := s.position + 1 : Scanner }.Within p front [c, '='] cs := by
  obtain ⟨hmatch, hwithin⟩ := matchByte_within h (by decide)
  rw [emitEither, bind_eq hmatch]
  exact ⟨rfl, hwithin⟩

theorem emitEither_single {double single : Token.Kind} (h : s.Within p front [c] cs)
    (hcs : cs.head? ≠ some '=') :
    emitEither '='.toUInt8 double single source s =
      some ((), { s with pending := some (single, none) }) := by
  rw [emitEither, bind_eq (matchByte_absent h (by decide) (by decide) hcs)]
  rfl

theorem stray_eq (h : Parts p front (c :: cs)) (hstart : s.start = p.offset.byteIdx) :
    stray source s = some (some (.error s.line (.unexpected c)), { s with
      position := s.start + c.utf8Size
      cuts := ⟨s.start, source.utf8ByteSize⟩ :: s.cuts }) := by
  have hrest : Parts p front (c :: cs ++ []) := by rwa [List.append_nil]
  obtain ⟨q, hq⟩ := hrest.exists_next
  obtain ⟨hle, htext⟩ := hrest.span_text hq
  have hstop : q.offset.byteIdx = source.utf8ByteSize := by rw [hq.last]; rfl
  have hcut := cutText_eq (s := s) hle
  rw [htext, hstop, ← hstart] at hcut
  rw [stray, bind_scanner, bind_size, bind_eq hcut, toList_ofList]
  rfl

theorem string_open (h : s.Within p front ['"'] cs) (hn : (encode cs).length < n)
    (hrest : cs.dropWhile (· != '"') = []) : (string n).TakesOff s p front ('"' :: cs) := by
  obtain ⟨s₁, hskip, hwithin, hline, hcuts, hyields⟩ := skipQuoted_within h hn
  have hwhole := List.takeWhile_append_dropWhile (p := (· != '"')) (l := cs)
  rw [hrest] at hwithin hwhole
  refine ⟨some (.error s₁.line .unterminated), s₁, _, [], ?_, congrArg ('"' :: ·) hwhole, hwithin,
    hline, hyields, ?_, .unterminated (not_mem_run '"' cs)⟩
  · rw [string, bind_eq hskip, bind_eq (atEnd_within hwithin)]
    rfl
  · rw [hcuts]
    exact fun e he => .inl he

theorem string_closed {d : Char} (h : s.Within p front ['"'] cs) (hn : (encode cs).length < n)
    (hrest : cs.dropWhile (· != '"') = d :: rest) :
    (string n).TakesOff s p front ('"' :: cs) := by
  obtain ⟨s₁, hskip, hwithin, hline, hcuts, hyields⟩ := skipQuoted_within h hn
  have hclose := List.head?_dropWhile_not (· != '"') cs
  have hwhole := List.takeWhile_append_dropWhile (p := (· != '"')) (l := cs)
  have hcut : cutString '"' cs =
      (⟨.string, '"' :: cs.takeWhile (· != '"') ++ [d]⟩, rest) := by simp only [cutString, hrest]
  have hfront : ¬Skips ('"' :: cs) := not_skips (by decide) (by decide)
  have htakes : Takes s₁.line _ _ _ := takes_cutString hfront
  rw [hrest] at hwithin hwhole hclose
  obtain rfl : d = '"' := by simpa using hclose
  rw [hcut] at htakes
  generalize cs.takeWhile (· != '"') = body at *
  have hquoted : quotedText ('"' :: (body ++ ['"'])) = ofList body := by simp [quotedText]
  obtain ⟨hadvance, hwithin'⟩ := hwithin.advance (by decide)
  obtain ⟨hcutText, hsound⟩ := cutText_quoted hwithin'
  have hstring : string n source s = some (none, { s₁ with
      position := s₁.position + 1
      pending := some (.string, some (.string (ofList body)))
      cuts := ⟨s₁.start + 1, s₁.position + 1 - 1⟩ :: s₁.cuts }) := by
    rw [string, bind_eq hskip, bind_eq (atEnd_within hwithin), if_neg (by simp), bind_eq hadvance,
      bind_scanner, bind_eq hcutText]
    rfl
  refine ⟨none, _, '"' :: (body ++ ['"']), rest, hstring, by simp [← hwhole],
    ⟨hwithin'.parts, hwithin'.start, hwithin'.position⟩, hline.trans (by simp), hyields, ?_, ?_⟩
  · exact List.forall_mem_cons.2 ⟨.inr hsound, fun e he => .inl (hcuts ▸ he)⟩
  · simp only [Piece.item?, List.cons_append, hquoted] at htakes
    exact htakes

theorem string_takesOff (h : s.Within p front ['"'] cs) (hn : (encode cs).length < n) :
    (string n).TakesOff s p front ('"' :: cs) := by
  cases hrest : cs.dropWhile (· != '"') with
  | nil => exact string_open h hn hrest
  | cons d rest => exact string_closed h hn hrest

theorem number_takesOff (h : s.Within p front [c] cs) (hfront : ¬Skips (c :: cs))
    (hc : isDigit c = true) (hn : (encode cs).length < n) :
    (number n >>= fun _ => return none).TakesOff s p front (c :: cs) := by
  obtain ⟨i, hwithin, hnumber⟩ := number_within h hn
  obtain ⟨x, hx⟩ := numeral_cutNumber hc cs
  have hcount : (cutNumber c cs).1.text.count '\n' = 0 :=
    List.count_eq_zero.2 fun hmem => absurd (hx.no_blank _ hmem) (by decide)
  have htakes : Takes s.line _ _ _ := takes_cutNumber hc hfront
  simp only [Piece.item?, shape_cutNumber] at htakes
  exact ⟨none, _, _, _, bind_eq hnumber, cutNumber_append c cs,
    .of_cut hwithin hcount hwithin.cutText.2 htakes⟩

theorem word_takesOff (h : s.Within p front [c] cs) (hfront : ¬Skips (c :: cs))
    (hc : isWordStart c = true) (hn : (encode cs).length < n) :
    (word n >>= fun _ => return none).TakesOff s p front (c :: cs) := by
  obtain ⟨i, hwithin, hword⟩ := word_within h hn
  have hisWord : IsWord (c :: cs.takeWhile isWordChar) :=
    isWord_cons.2 ⟨hc, fun d hd => List.mem_takeWhile_imp hd⟩
  have hcount : (c :: cs.takeWhile isWordChar).count '\n' = 0 :=
    List.count_eq_zero.2 fun hmem => absurd (hisWord.no_blank _ hmem) (by decide)
  have htakes : Takes s.line _ _ _ := takes_cutWord hc hfront
  refine ⟨none, _, _, _, bind_eq hword, ?_, .of_cut hwithin hcount hwithin.cutText.2 htakes⟩
  rw [List.cons_append, List.takeWhile_append_dropWhile]

theorem comment_takesOff (h : s.Within p front ['/'] ('/' :: cs)) (hpending : s.pending = none) :
    (slash >>= fun _ => return none).TakesOff s p front ('/' :: '/' :: cs) := by
  obtain ⟨i, hwithin, hslash⟩ := slash_comment h
  have hsound := (matchByte_within h (by decide)).2.sound_rest
  have htakes : Takes s.line _ _ none :=
    takes_cutComment (show ('/' :: cs).head? = some '/' from rfl)
  rw [cutWhile, List.takeWhile_cons_of_pos (by decide), List.dropWhile_cons_of_pos (by decide)]
    at htakes
  have hcount : ('/' :: '/' :: cs.takeWhile (· != '\n')).count '\n' = 0 :=
    List.count_eq_zero.2 (by simpa using not_mem_run '\n' cs)
  refine ⟨none, _, _, _, bind_eq hslash, by simp, .of_cut hwithin hcount hsound ?_⟩
  rw [Scanner.offered, hpending]
  exact htakes

/-- One character is taken for a symbol. -/
theorem single_takesOff {kind : Token.Kind} {double : Option Token.Kind} {r : Scan Unit}
    (h : s.Within p front [c] cs) (hfront : ¬Skips (c :: cs))
    (hsymbol : symbolOf? c = some (kind, double)) (hdouble : double.isSome → cs.head? ≠ some '=')
    (hr : r source s = some ((), { s with pending := some (kind, none) })) :
    (r >>= fun _ => return none).TakesOff s p front (c :: cs) := by
  obtain ⟨-, hdigit, hletter, hquote⟩ := symbolOf?_start hsymbol
  have hcut : cutSymbol c cs = (⟨.symbol kind, [c]⟩, cs) := by
    unfold cutSymbol
    split
    next heq =>
      rw [hsymbol] at heq
      cases heq
      exact absurd rfl (hdouble rfl)
    next heq hnot =>
      rw [hsymbol] at heq
      cases heq
      rfl
    next heq =>
      rw [hsymbol] at heq
      cases heq
  have htakes : Takes s.line _ _ _ := takes_cutSymbol hfront hdigit hletter hquote
  rw [hcut] at htakes
  exact ⟨none, _, [c], cs, bind_eq hr, rfl, ⟨h.parts, h.start, h.position⟩,
    by rw [count_front hfront]; rfl, rfl, fun e he => .inl he, htakes⟩

theorem emitEither_takesOff {single double : Token.Kind} (h : s.Within p front [c] cs)
    (hfront : ¬Skips (c :: cs)) (hsymbol : symbolOf? c = some (single, some double)) :
    (emitEither '='.toUInt8 double single >>= fun _ => return none).TakesOff s p front
      (c :: cs) := by
  by_cases hcs : cs.head? = some '='
  · obtain ⟨cs, rfl⟩ := List.head?_eq_some_iff.1 hcs
    obtain ⟨hemit, hwithin⟩ := emitEither_double h
    obtain ⟨-, hdigit, hletter, hquote⟩ := symbolOf?_start hsymbol
    have hcut : cutSymbol c ('=' :: cs) = (⟨.symbol double, [c, '=']⟩, cs) := by
      simp only [cutSymbol, hsymbol]
    have htakes : Takes s.line _ _ _ := takes_cutSymbol hfront hdigit hletter hquote
    rw [hcut] at htakes
    have hcount : [c, '='].count '\n' = 0 := by
      rw [← List.singleton_append, List.count_append, count_front hfront]
      rfl
    exact ⟨none, _, [c, '='], cs, bind_eq hemit, rfl,
      ⟨hwithin.parts, hwithin.start, hwithin.position⟩, by rw [hcount]; rfl, rfl,
      fun e he => .inl he, htakes⟩
  · exact single_takesOff h hfront hsymbol (fun _ => hcs) (emitEither_single h hcs)

theorem stray_takesOff (h : Parts p front (c :: cs)) (hstart : s.start = p.offset.byteIdx)
    (hfront : ¬Skips (c :: cs)) (hdigit : isDigit c = false) (hletter : isWordStart c = false)
    (hquote : c ≠ '"') (hsymbol : symbolOf? c = none) : stray.TakesOff s p front (c :: cs) := by
  have hcut : cutSymbol c cs = (⟨.stray, [c]⟩, cs) := by simp only [cutSymbol, hsymbol]
  have htakes : Takes s.line _ _ _ := takes_cutSymbol hfront hdigit hletter hquote
  rw [hcut] at htakes
  have hsound := (Span.mk p source.endPos p.le_endPos).sound
  rw [Span.extent, ← hstart] at hsound
  refine ⟨_, _, [c], cs, stray_eq h hstart, rfl,
    .of_cut ⟨h, hstart, ?_⟩ (count_front hfront) hsound htakes⟩
  rw [hstart, encode_cons, encode_nil, List.append_nil, length_utf8EncodeChar]

theorem slash_takesOff (h : s.Within p front ['/'] cs) (hpending : s.pending = none) :
    (slash >>= fun _ => return none).TakesOff s p front ('/' :: cs) := by
  by_cases hcs : cs.head? = some '/'
  · obtain ⟨cs, rfl⟩ := List.head?_eq_some_iff.1 hcs
    exact comment_takesOff h hpending
  · have hfront : ¬Skips ('/' :: cs) := by simp [skips_cons, isBlank, hcs]
    exact single_takesOff h hfront rfl (fun hdouble => by cases hdouble) (slash_symbol h hcs)

theorem blank_takesOff (h : s.Within p front [c] cs) (hpending : s.pending = none)
    (hc : isBlank c = true) (hline : c ≠ '\n') :
    (return none : Scan (Option Item)).TakesOff s p front (c :: cs) := by
  have hcount : [c].count '\n' = 0 := List.count_eq_zero.2 (by simpa using hline.symm)
  refine ⟨none, s, [c], cs, rfl, rfl, h, by rw [hcount]; rfl, rfl, fun e he => .inl he, ?_⟩
  rw [Scanner.offered, hpending]
  exact .blank hc

theorem countLine_takesOff (h : s.Within p front ['\n'] cs) (hpending : s.pending = none) :
    (countLine >>= fun _ => return none).TakesOff s p front ('\n' :: cs) := by
  refine ⟨none, { s with line := s.line + 1 }, ['\n'], cs, rfl, rfl,
    ⟨h.parts, h.start, h.position⟩, rfl, rfl, fun e he => .inl he, ?_⟩
  rw [Scanner.offered, hpending]
  exact .blank rfl

theorem takeRest_takesOff (h : s.Within p front [c] cs) (hpending : s.pending = none)
    (hn : (encode cs).length < n) : (takeRest n c).TakesOff s p front (c :: cs) := by
  unfold takeRest
  split
  next hslash =>
    subst hslash
    exact slash_takesOff h hpending
  split
  next hquote =>
    subst hquote
    exact string_takesOff h hn
  split
  next hline =>
    subst hline
    exact countLine_takesOff h hpending
  split
  next hline hblank => exact blank_takesOff h hpending hblank hline
  split
  next hslash _ _ hblank hdigit => exact number_takesOff h (not_skips hslash hblank) hdigit hn
  split
  next hslash _ _ hblank _ hletter => exact word_takesOff h (not_skips hslash hblank) hletter hn
  next hslash hquote _ hblank hdigit hletter =>
    have hfront : ¬Skips (c :: cs) := not_skips hslash hblank
    split
    next kind hsymbol =>
      exact single_takesOff h hfront hsymbol (fun hdouble => by cases hdouble) rfl
    next single double hsymbol => exact emitEither_takesOff h hfront hsymbol
    next hsymbol =>
      exact stray_takesOff h.parts h.start hfront (by simpa using hdigit) (by simpa using hletter)
        hquote hsymbol

theorem takeRest_of_le (hc : 128 ≤ c.toNat) : takeRest n c = stray := by
  have hne {d : Char} (hd : d.toNat < 128) : c ≠ d := by
    rintro rfl
    exact Nat.not_lt.2 hc hd
  obtain ⟨hblank, hdigit, hletter, hsymbol⟩ := classes_of_le hc
  rw [takeRest, if_neg (hne (by decide)), if_neg (hne (by decide)), if_neg (hne (by decide)),
    if_neg (by simp [hblank]), if_neg (by simp [hdigit]), if_neg (by simp [hletter]), hsymbol]

/-- What is scanned after a step that leaves the line and all that was written down. -/
theorem TakesOff.of_eq {r r' : Scan (Option Item)} {cs : List Char} (h : r'.TakesOff s' p front cs)
    (heq : r source s = r' source s') (hline : s'.line = s.line) (hyields : s'.yields = s.yields)
    (hcuts : s'.cuts = s.cuts) : r.TakesOff s p front cs := by
  obtain ⟨e, z, text, rest, hr, htext, hwithin, hline', hyields', hcuts', htakes⟩ := h
  exact ⟨e, z, text, rest, heq.trans hr, htext, hwithin, hline ▸ hline', hyields ▸ hyields',
    hcuts ▸ hcuts', htakes⟩

theorem token_takesOff (h : Parts p front (c :: cs)) (hstart : s.start = p.offset.byteIdx)
    (hposition : s.position = p.offset.byteIdx) (hpending : s.pending = none)
    (hn : (encode (c :: cs)).length ≤ n) : (token n).TakesOff s p front (c :: cs) := by
  have hwithin : s.Within p front [] (c :: cs) := ⟨h, hstart, hposition⟩
  by_cases hc : c.toNat < 128
  · obtain ⟨hadvance, hwithin'⟩ := hwithin.advance hc
    have hlt : (encode cs).length < n := by
      rw [encode_cons, utf8EncodeChar_of_lt hc] at hn
      exact hn
    refine (takeRest_takesOff hwithin' hpending hlt).of_eq ?_ rfl rfl rfl
    rw [token, bind_eq hadvance, ascii_of_lt hc]
  · have hwide := Nat.le_of_not_lt hc
    obtain ⟨hblank, hdigit, hletter, hsymbol⟩ := classes_of_le hwide
    have hslash : c ≠ '/' := by rintro rfl; exact hc (by decide)
    have hquote : c ≠ '"' := by rintro rfl; exact hc (by decide)
    have hfront : ¬Skips (c :: cs) := not_skips hslash (by simp [hblank])
    -- whatever the first byte is, it is taken for a character that starts no token either
    obtain ⟨b, bs, hbytes⟩ := List.exists_cons_of_ne_nil (utf8EncodeChar_ne_nil (c := c))
    have hb : 128 ≤ (ascii b).toNat :=
      (toNat_ascii b).symm ▸ le_of_mem_utf8EncodeChar hwide b (by simp [hbytes])
    have hfaces := hwithin.faces
    rw [encode_cons, hbytes] at hfaces
    refine (stray_takesOff (s := { s with position := s.position + 1 }) h hstart hfront hdigit
      hletter hquote hsymbol).of_eq ?_ rfl rfl rfl
    rw [token, bind_eq (advance_cons hfaces), takeRest_of_le hb]

end Scan

end ClassScript
