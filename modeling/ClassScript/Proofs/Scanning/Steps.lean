import ClassScript.Proofs.Scanning.Bytes

/-! # Steps of the scanner

What each step of the scanner does where it stands.  First this is said of the bytes that it faces,
and then, where it has taken whole characters, of the characters that are left.
-/
namespace ClassScript

open Source String

variable {source : String} {s s' : Scanner} {p q : source.Pos} {b : UInt8} {bs bs' : List UInt8}
  {c : Char} {front text rest : List Char} {n : Nat}

namespace Scan

variable {α β : Type}

theorem bind_eq {r : Scan α} {f : α → Scan β} {a : α} (h : r source s = some (a, s')) :
    (r >>= f) source s = f a source s' := by
  change Scan.bind r f source s = _
  rw [Scan.bind, h]

theorem bind_scanner (f : Scanner → Scan β) : (scanner >>= f) source s = f s source s := rfl

theorem bind_size (f : Nat → Scan β) :
    (size >>= f) source s = f source.utf8ByteSize source s :=
  rfl

/-! ### Bytes -/

theorem atEnd_eq (h : Faces source s.position bs) : atEnd source s = some (bs.isEmpty, s) := by
  have hlength := h.length
  have hsame : decide (source.utf8ByteSize ≤ s.position) = bs.isEmpty := by
    cases bs with
    | nil => simpa using hlength.ge
    | cons b bs =>
      rw [List.length_cons] at hlength
      simpa using by omega
  exact congrArg (fun atEnd => some (atEnd, s)) hsame

theorem byte_head {i : Nat} (h : Faces source i (b :: bs)) : byte i source s = some (b, s) := by
  rw [byte, h.head]
  rfl

theorem advance_cons (h : Faces source s.position (b :: bs)) :
    advance source s = some (b, { s with position := s.position + 1 }) := by
  rw [advance, bind_scanner, bind_eq (byte_head h)]
  rfl

theorem peek_eq (h : Faces source s.position bs) : peek source s = some (bs.headD 0, s) := by
  rw [peek, bind_eq (atEnd_eq h)]
  cases bs with
  | nil => rfl
  | cons b bs => exact byte_head h

theorem peekNext_eq (h : Faces source s.position (b :: bs)) :
    peekNext source s = some (bs.headD 0, s) := by
  have hlength := h.length
  simp only [List.length_cons] at hlength
  rw [peekNext, bind_scanner, bind_size]
  cases bs with
  | nil =>
    rw [if_pos (by simpa using hlength.ge)]
    rfl
  | cons b' bs =>
    rw [List.length_cons] at hlength
    rw [if_neg (by omega)]
    exact byte_head h.tail

theorem matchByte_same (h : Faces source s.position (b :: bs)) :
    matchByte b source s = some (true, { s with position := s.position + 1 }) := by
  rw [matchByte, bind_eq (atEnd_eq h), List.isEmpty_cons, if_neg Bool.false_ne_true,
    bind_eq (peek_eq h), List.headD_cons, if_pos (beq_self_eq_true b), bind_eq (advance_cons h)]
  rfl

theorem matchByte_other (h : Faces source s.position bs) (hb : bs.head? ≠ some b) :
    matchByte b source s = some (false, s) := by
  rw [matchByte, bind_eq (atEnd_eq h)]
  cases bs with
  | nil => rfl
  | cons b' bs =>
    have hne : ¬(b' == b) = true := fun heq => hb (by rw [eq_of_beq heq]; rfl)
    rw [List.isEmpty_cons, if_neg Bool.false_ne_true, bind_eq (peek_eq h), List.headD_cons,
      if_neg hne]
    rfl

theorem skipWhile_eq {p : Char → Bool} (hzero : p (ascii 0) = false) (hn : bs.length < n)
    (h : Faces source s.position bs) :
    skipWhile p n source s = some ((), { s with
      position := s.position + (bs.takeWhile fun b => p (ascii b)).length }) := by
  induction n generalizing s bs with
  | zero => exact absurd hn (Nat.not_lt_zero _)
  | succ n ih =>
    rw [skipWhile, bind_eq (peek_eq h)]
    cases bs with
    | nil =>
      rw [List.headD_nil, if_neg (by simp [hzero])]
      rfl
    | cons b bs =>
      rw [List.headD_cons]
      split
      next hb =>
        rw [bind_eq (advance_cons h), ih (Nat.lt_of_succ_lt_succ hn) h.tail,
          List.takeWhile_cons_of_pos (p := fun b => p (ascii b)) hb, List.length_cons]
        simp only [Nat.add_assoc, Nat.add_comm 1]
      next hb =>
        rw [List.takeWhile_cons_of_neg (p := fun b => p (ascii b)) hb]
        rfl

theorem skipQuoted_eq (hn : bs.length < n) (h : Faces source s.position bs) :
    skipQuoted n source s = some ((), { s with
      position := s.position + (bs.takeWhile fun b => ascii b != '"').length
      line := s.line +
        (bs.takeWhile fun b => ascii b != '"').countP fun b => ascii b == '\n' }) := by
  induction n generalizing s bs with
  | zero => exact absurd hn (Nat.not_lt_zero _)
  | succ n ih =>
    rw [skipQuoted, bind_eq (atEnd_eq h)]
    cases bs with
    | nil => rfl
    | cons b bs =>
      rw [List.isEmpty_cons, if_neg Bool.false_ne_true, bind_eq (peek_eq h), List.headD_cons]
      by_cases hquote : (ascii b == '"') = true
      · have hstop : ¬(ascii b != '"') = true := by simpa [bne] using hquote
        rw [if_pos hquote, List.takeWhile_cons_of_neg (p := fun b => ascii b != '"') hstop]
        rfl
      · have hgo : (ascii b != '"') = true := by simpa [bne] using hquote
        have hn' : bs.length < n := Nat.lt_of_succ_lt_succ hn
        rw [if_neg hquote, bind_eq (advance_cons h),
          List.takeWhile_cons_of_pos (p := fun b => ascii b != '"') hgo, List.length_cons,
          List.countP_cons]
        have hrest (line : Nat) := ih (s := { s with position := s.position + 1, line }) hn' h.tail
        by_cases hline : (ascii b == '\n') = true
        · rw [if_pos hline, if_pos hline]
          refine (hrest (s.line + 1)).trans ?_
          simp only [Nat.add_assoc, Nat.add_comm 1]
        · rw [if_neg hline, if_neg hline]
          refine (hrest s.line).trans ?_
          simp only [Nat.add_assoc, Nat.add_comm 1, Nat.add_zero]

theorem cutBytes_eq {i : Nat} (h : Faces source i (bs ++ bs')) :
    cutBytes i (i + bs.length) source s =
      some (bs, { s with cuts := ⟨i, i + bs.length⟩ :: s.cuts }) := by
  have hlength := h.append.le
  rw [cutBytes, if_pos ⟨Nat.le_add_right _ _, hlength⟩, h.extract]

theorem skipLine_eq (h : Faces source s.position bs) :
    skipLine source s = some ((), { s with
      position := s.position + (bs.takeWhile fun b => ascii b != '\n').length
      cuts := ⟨s.position, source.utf8ByteSize⟩ :: s.cuts }) := by
  have htake : (bs.takeWhile fun b => ascii b != '\n').length =
      bs.findIdx fun b => ascii b == '\n' := by
    rw [List.takeWhile_eq_take_findIdx_not, List.length_take]
    simp [bne, List.findIdx_le_length]
  have hfaces : Faces source s.position (bs ++ []) := by rwa [List.append_nil]
  have hcut := cutBytes_eq (s := s) hfaces
  rw [h.length] at hcut
  rw [skipLine, bind_scanner, bind_size, bind_eq hcut, htake]
  cases hfind : bs.findIdx? fun b => ascii b == '\n' with
  | some i =>
    rw [(List.findIdx?_eq_some_iff_findIdx_eq.1 hfind).2]
    rfl
  | none =>
    rw [List.findIdx?_eq_none_iff_findIdx_eq.1 hfind, h.length]
    rfl

theorem cutText_eq (h : p ≤ q) :
    cutText p.offset.byteIdx q.offset.byteIdx source s =
      some ((Span.mk p q h).text,
        { s with cuts := ⟨p.offset.byteIdx, q.offset.byteIdx⟩ :: s.cuts }) := by
  have hp : source.pos? ⟨p.offset.byteIdx⟩ = some p := pos?_offset p
  have hq : source.pos? ⟨q.offset.byteIdx⟩ = some q := pos?_offset q
  simp only [cutText, hp, hq, slice?, dif_pos h, Option.bind_eq_bind, Option.bind_some]
  rfl

end Scan

/-! ### Texts -/

/-- The extent lies in the source text, and at both of its ends a character starts or the text
ends. -/
structure Extent.Sound (source : String) (e : Extent) : Prop where
  ordered : e.start ≤ e.stop
  inside : e.stop ≤ source.utf8ByteSize
  start : Pos.Raw.IsValid source ⟨e.start⟩
  stop : Pos.Raw.IsValid source ⟨e.stop⟩

def Source.Span.extent (span : Span source) : Extent :=
  ⟨span.start.offset.byteIdx, span.stop.offset.byteIdx⟩

theorem Source.Span.sound (span : Span source) : span.extent.Sound source where
  ordered := span.ordered
  inside := span.stop.isValid.le_rawEndPos
  start := span.start.isValid
  stop := span.stop.isValid

/-- The scanner has taken a text that starts at the position, and another one is left. -/
structure Scanner.Within (s : Scanner) (p : source.Pos) (front text rest : List Char) : Prop where
  parts : Parts p front (text ++ rest)
  start : s.start = p.offset.byteIdx
  position : s.position = p.offset.byteIdx + (encode text).length

namespace Scanner.Within

theorem faces (h : s.Within p front text rest) : Faces source s.position (encode rest) := by
  have hfaces := h.parts.faces
  rw [encode_append] at hfaces
  rw [h.position]
  exact hfaces.append

theorem exists_span (h : s.Within p front text rest) : ∃ span : Span source, span.start = p ∧
    span.extent = ⟨s.start, s.position⟩ ∧ Parts span.stop (front ++ text) rest ∧
      span.text = ofList text := by
  obtain ⟨q, hq, hindex⟩ := h.parts.exists_ahead
  obtain ⟨hle, htext⟩ := h.parts.span_text hq
  refine ⟨⟨p, q, hle⟩, rfl, ?_, hq, htext⟩
  rw [Span.extent, hindex, h.start, h.position]

theorem append {more : List Char} (h : s.Within p front text (more ++ rest)) :
    { s with position := s.position + (encode more).length : Scanner }.Within p front
      (text ++ more) rest := by
  refine ⟨?_, h.start, ?_⟩
  · rw [List.append_assoc]
    exact h.parts
  · rw [encode_append, List.length_append, ← Nat.add_assoc, ← h.position]

/-- The longest run of characters of a class is taken. -/
theorem run {f : Char → Bool} (h : s.Within p front text rest) :
    { s with position := s.position + (encode (rest.takeWhile f)).length : Scanner }.Within p front
      (text ++ rest.takeWhile f) (rest.dropWhile f) :=
  append (by rwa [List.takeWhile_append_dropWhile])

theorem advance (h : s.Within p front text (c :: rest)) (hc : c.toNat < 128) :
    Scan.advance source s = some (UInt8.ofNat c.toNat, { s with position := s.position + 1 }) ∧
      { s with position := s.position + 1 : Scanner }.Within p front (text ++ [c]) rest := by
  have hbytes := utf8EncodeChar_of_lt hc
  have hfaces := h.faces
  have hwithin : { s with position := s.position + (encode [c]).length : Scanner }.Within p front
      (text ++ [c]) rest := append h
  rw [encode_cons, hbytes] at hfaces hwithin
  exact ⟨Scan.advance_cons hfaces, hwithin⟩

theorem skipWhile {f : Char → Bool} (h : s.Within p front text rest) (hf : ByBytes f)
    (hzero : f (Scan.ascii 0) = false) (hn : (encode rest).length < n) :
    ∃ i, Scan.skipWhile f n source s = some ((), { s with position := i }) ∧
      { s with position := i : Scanner }.Within p front (text ++ rest.takeWhile f)
        (rest.dropWhile f) := by
  have hskip := Scan.skipWhile_eq hzero hn h.faces
  rw [hf.takeWhile_encode] at hskip
  exact ⟨_, hskip, h.run⟩

/-- What is left reaches from the position to the end. -/
theorem sound_rest (h : s.Within p front text rest) :
    Extent.Sound source ⟨s.position, source.utf8ByteSize⟩ := by
  obtain ⟨span, -, hextent, -, -⟩ := h.exists_span
  obtain ⟨-, hstop⟩ := Extent.mk.inj hextent
  rw [← hstop]
  exact (Span.mk span.stop source.endPos span.stop.le_endPos).sound

theorem cutText (h : s.Within p front text rest) :
    Scan.cutText s.start s.position source s =
        some (ofList text, { s with cuts := ⟨s.start, s.position⟩ :: s.cuts }) ∧
      Extent.Sound source ⟨s.start, s.position⟩ := by
  obtain ⟨span, -, hextent, -, htext⟩ := h.exists_span
  have hstart : span.start.offset.byteIdx = s.start := congrArg Extent.start hextent
  have hstop : span.stop.offset.byteIdx = s.position := congrArg Extent.stop hextent
  have hcut := Scan.cutText_eq (s := s) span.ordered
  rw [hstart, hstop] at hcut
  exact ⟨hcut.trans (by rw [← htext]), hextent ▸ span.sound⟩

end Scanner.Within

namespace Scan

theorem atEnd_within (h : s.Within p front text rest) :
    atEnd source s = some (rest.isEmpty, s) := by
  have hsame : (encode rest).isEmpty = rest.isEmpty := by
    cases rest with
    | nil => rfl
    | cons c rest => simp
  rw [← hsame]
  exact atEnd_eq h.faces

theorem peek_within (h : s.Within p front text rest) :
    ∃ b, peek source s = some (b, s) ∧
      ∀ f, ByBytes f → f (ascii 0) = false → f (ascii b) = rest.head?.any f :=
  ⟨_, peek_eq h.faces, fun _ hf hzero => hf.head_encode hzero rest⟩

theorem peekNext_within (h : s.Within p front text (c :: rest)) (hc : c.toNat < 128) :
    ∃ b, peekNext source s = some (b, s) ∧
      ∀ f, ByBytes f → f (ascii 0) = false → f (ascii b) = rest.head?.any f := by
  have hfaces := h.faces
  rw [encode_cons, utf8EncodeChar_of_lt hc] at hfaces
  exact ⟨_, peekNext_eq hfaces, fun _ hf hzero => hf.head_encode hzero rest⟩

theorem matchByte_within (h : s.Within p front text (c :: rest)) (hc : c.toNat < 128) :
    matchByte c.toUInt8 source s = some (true, { s with position := s.position + 1 }) ∧
      { s with position := s.position + 1 : Scanner }.Within p front (text ++ [c]) rest := by
  have hfaces := h.faces
  rw [encode_cons, utf8EncodeChar_of_lt hc] at hfaces
  exact ⟨matchByte_same hfaces, (h.advance hc).2⟩

theorem matchByte_absent (h : s.Within p front text rest) (hc : c.toNat < 128) (hzero : c ≠ ascii 0)
    (hrest : rest.head? ≠ some c) : matchByte c.toUInt8 source s = some (false, s) := by
  refine matchByte_other h.faces fun hhead => hrest ?_
  have hfirst : (encode rest).headD 0 = UInt8.ofNat c.toNat := by
    rw [List.headD_eq_head?_getD, hhead]
    rfl
  have hsame := (byBytes_eq hc).head_encode (by simpa using hzero.symm) rest
  rw [hfirst, ascii_of_lt hc, beq_self_eq_true] at hsame
  obtain ⟨d, hd, heq⟩ := (Option.any_eq_true _ _).1 hsame.symm
  rwa [← eq_of_beq heq]

theorem skipQuoted_within (h : s.Within p front text rest) (hn : (encode rest).length < n) :
    ∃ s', skipQuoted n source s = some ((), s') ∧
      s'.Within p front (text ++ rest.takeWhile (· != '"')) (rest.dropWhile (· != '"')) ∧
        s'.line = s.line + (rest.takeWhile (· != '"')).count '\n' ∧
          s'.cuts = s.cuts ∧ s'.yields = s.yields := by
  have hskip := skipQuoted_eq hn h.faces
  rw [(byBytes_ne (by decide)).takeWhile_encode, countP_encode] at hskip
  obtain ⟨hparts, hstart, hposition⟩ := h.run (f := (· != '"'))
  exact ⟨_, hskip, ⟨hparts, hstart, hposition⟩, rfl, rfl, rfl⟩

/-- The text between the quotes is cut out. -/
theorem cutText_quoted {body : List Char} (h : s.Within p front ('"' :: (body ++ ['"'])) rest) :
    cutText (s.start + 1) (s.position - 1) source s = some (ofList body,
        { s with cuts := ⟨s.start + 1, s.position - 1⟩ :: s.cuts }) ∧
      Extent.Sound source ⟨s.start + 1, s.position - 1⟩ := by
  obtain ⟨span, rfl, hextent, hstop, -⟩ := h.exists_span
  obtain ⟨inner, htext, hopen, hclose⟩ := h.parts.exists_inner hstop
  have hstart : inner.start.offset.byteIdx = s.start + 1 := by
    rw [hopen]
    exact congrArg (·.start + 1) hextent
  have hstop : inner.stop.offset.byteIdx = s.position - 1 := by
    have hposition : span.stop.offset.byteIdx = s.position := congrArg Extent.stop hextent
    omega
  have hcut := cutText_eq (s := s) inner.ordered
  have hsound := inner.sound
  rw [Span.extent] at hsound
  rw [hstart, hstop] at hcut hsound
  exact ⟨hcut.trans (by rw [← htext]), hsound⟩

end Scan

end ClassScript
