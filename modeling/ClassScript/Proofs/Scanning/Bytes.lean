import ClassScript.Proofs.Scanning.Basic
import ClassScript.Proofs.Source.Spans

/-! # Bytes and characters

A character below 128 is a single byte, and all bytes of any other character are 128 or more.  So a
class of characters that has all of the others or none of them can be told byte by byte.
-/
namespace ClassScript

open Source Scan String

section Encoding

variable {c : Char} {cs ds : List Char} {p : Char → Bool}

def encode (cs : List Char) : List UInt8 := cs.flatMap utf8EncodeChar

@[simp] theorem encode_nil : encode [] = [] := rfl

@[simp] theorem encode_cons (c : Char) (cs : List Char) :
    encode (c :: cs) = utf8EncodeChar c ++ encode cs :=
  List.flatMap_cons

@[simp] theorem encode_append (cs ds : List Char) : encode (cs ++ ds) = encode cs ++ encode ds :=
  List.flatMap_append

theorem toUTF8_ofList (cs : List Char) : (ofList cs).toUTF8.data.toList = encode cs := by
  simp [toUTF8, List.utf8Encode, encode]

theorem toUTF8_inj {s t : String} : s.toUTF8.data.toList = t.toUTF8.data.toList ↔ s = t := by
  rw [Array.toList_inj, ← ByteArray.ext_iff]
  exact toByteArray_inj

theorem length_encode (cs : List Char) : (encode cs).length = (ofList cs).utf8ByteSize := by
  rw [← toUTF8_ofList, Array.length_toList]
  exact size_toByteArray

theorem length_encode_pos (h : cs ≠ []) : 0 < (encode cs).length := by
  obtain ⟨c, cs, rfl⟩ := List.exists_cons_of_ne_nil h
  rw [encode_cons, List.length_append]
  exact Nat.add_pos_left (List.length_pos_iff.2 utf8EncodeChar_ne_nil) _

theorem utf8EncodeChar_of_lt (h : c.toNat < 128) : utf8EncodeChar c = [UInt8.ofNat c.toNat] :=
  if_pos (Nat.le_of_lt_succ h)

theorem toNat_ascii (b : UInt8) : (ascii b).toNat = b.toNat := by
  have hvalid : b.toNat.isValidChar := .inl (Nat.lt_trans b.toNat_lt (by decide))
  rw [ascii, Char.ofNat, dif_pos hvalid]
  rfl

theorem ascii_of_lt (h : c.toNat < 128) : ascii (UInt8.ofNat c.toNat) = c := by
  rw [ascii, UInt8.toNat_ofNat_of_lt' (Nat.lt_trans h (by decide)), Char.ofNat_toNat]

theorem le_of_mem_utf8EncodeChar (h : 128 ≤ c.toNat) : ∀ b ∈ utf8EncodeChar c, 128 ≤ b.toNat := by
  have hlt : ¬ c.val.toNat ≤ 127 := Nat.not_le.2 h
  simp only [utf8EncodeChar, if_neg hlt]
  repeat' split
  all_goals
    simp only [List.mem_cons, List.not_mem_nil, or_false, forall_eq_or_imp, forall_eq,
      UInt8.toNat_ofNat']
    omega

/-- All characters from 128 on are in the class, or none of them is. -/
def ByBytes (p : Char → Bool) : Prop := ∀ c d, 128 ≤ c.toNat → 128 ≤ d.toNat → p c = p d

theorem ByBytes.ascii_eq (h : ByBytes p) (c : Char) :
    ∀ b ∈ utf8EncodeChar c, p (ascii b) = p c := by
  intro b hb
  by_cases hc : c.toNat < 128
  · rw [utf8EncodeChar_of_lt hc, List.mem_singleton] at hb
    rw [hb, ascii_of_lt hc]
  · have hlow := Nat.le_of_not_lt hc
    exact h _ _ ((toNat_ascii b).symm ▸ le_of_mem_utf8EncodeChar hlow b hb) hlow

theorem ByBytes.takeWhile_encode (h : ByBytes p) (cs : List Char) :
    (encode cs).takeWhile (fun b => p (ascii b)) = encode (cs.takeWhile p) := by
  induction cs with
  | nil => rfl
  | cons c cs ih =>
    have hsame := h.ascii_eq c
    rw [encode_cons]
    by_cases hc : p c = true
    · rw [List.takeWhile_append_of_pos fun b hb => (hsame b hb).trans hc, ih,
        List.takeWhile_cons_of_pos hc, encode_cons]
    · obtain ⟨b, bs, hbytes⟩ := List.exists_cons_of_ne_nil (utf8EncodeChar_ne_nil (c := c))
      have hb : ¬p (ascii b) = true := by rwa [hsame b (by simp [hbytes])]
      rw [hbytes, List.cons_append, List.takeWhile_cons_of_neg hc,
        List.takeWhile_cons_of_neg (p := fun b => p (ascii b)) hb, encode_nil]

theorem lt_of_isDigit (h : isDigit c = true) : c.toNat < 128 := by
  simp only [isDigit, decide_eq_true_eq] at h
  exact Nat.lt_of_le_of_lt h.2 (by decide)

theorem lt_of_isWordStart (h : isWordStart c = true) : c.toNat < 128 := by
  simp only [isWordStart, Bool.or_eq_true, decide_eq_true_eq, beq_iff_eq] at h
  rcases h with (⟨-, h⟩ | ⟨-, h⟩) | rfl
  · exact Nat.lt_of_le_of_lt h (by decide)
  · exact Nat.lt_of_le_of_lt h (by decide)
  · decide

theorem lt_of_isWordChar (h : isWordChar c = true) : c.toNat < 128 := by
  rcases Bool.or_eq_true_iff.1 h with h | h
  · exact lt_of_isWordStart h
  · exact lt_of_isDigit h

theorem lt_of_isBlank (h : isBlank c = true) : c.toNat < 128 := by
  simp only [isBlank, Bool.or_eq_true, beq_iff_eq] at h
  rcases h with ((rfl | rfl) | rfl) | rfl <;> decide

theorem lt_of_symbolOf? {pair : Token.Kind × Option Token.Kind} (h : symbolOf? c = some pair) :
    c.toNat < 128 := by
  unfold symbolOf? at h
  split at h <;> cases h <;> decide

/-- A character that is not a single byte starts no blank and no token. -/
theorem classes_of_le (hc : 128 ≤ c.toNat) :
    isBlank c = false ∧ isDigit c = false ∧ isWordStart c = false ∧ symbolOf? c = none := by
  have hfalse {f : Char → Bool} (hf : f c = true → c.toNat < 128) : f c = false := by
    rw [← Bool.not_eq_true]
    exact fun h => Nat.not_lt.2 hc (hf h)
  refine ⟨hfalse lt_of_isBlank, hfalse lt_of_isDigit, hfalse lt_of_isWordStart, ?_⟩
  exact Option.eq_none_iff_forall_ne_some.2 fun pair h => Nat.not_lt.2 hc (lt_of_symbolOf? h)

theorem byBytes_of_lt (h : ∀ c, p c = true → c.toNat < 128) : ByBytes p := by
  have hfalse (c : Char) (hc : 128 ≤ c.toNat) : p c = false := by
    rw [← Bool.not_eq_true]
    exact fun hp => Nat.not_lt.2 hc (h c hp)
  exact fun c d hc hd => (hfalse c hc).trans (hfalse d hd).symm

theorem byBytes_isDigit : ByBytes isDigit := byBytes_of_lt fun _ => lt_of_isDigit

theorem byBytes_isWordChar : ByBytes isWordChar := byBytes_of_lt fun _ => lt_of_isWordChar

theorem byBytes_eq {d : Char} (hd : d.toNat < 128) : ByBytes (· == d) :=
  byBytes_of_lt fun c hc => by rwa [eq_of_beq hc]

theorem byBytes_ne {d : Char} (hd : d.toNat < 128) : ByBytes (· != d) :=
  fun c c' hc hc' => congrArg (! ·) (byBytes_eq hd c c' hc hc')

/-- What the first byte tells of the first character. -/
theorem ByBytes.head_encode (h : ByBytes p) (hzero : p (ascii 0) = false) (cs : List Char) :
    p (ascii ((encode cs).headD 0)) = cs.head?.any p := by
  cases cs with
  | nil => exact hzero
  | cons c cs =>
    obtain ⟨b, bs, hbytes⟩ := List.exists_cons_of_ne_nil (utf8EncodeChar_ne_nil (c := c))
    rw [encode_cons, hbytes]
    exact h.ascii_eq c b (by rw [hbytes]; exact List.mem_cons_self)

/-- The line ends among the bytes are those among the characters. -/
theorem countP_encode (cs : List Char) :
    (encode cs).countP (fun b => ascii b == '\n') = cs.count '\n' := by
  induction cs with
  | nil => rfl
  | cons c cs ih =>
    have hbytes := (byBytes_eq (d := '\n') (by decide)).ascii_eq c
    rw [encode_cons, List.countP_append, ih, List.count_cons, Nat.add_comm]
    by_cases hc : (c == '\n') = true
    · obtain rfl := eq_of_beq hc
      rfl
    · rw [List.countP_eq_zero.2 fun b hb => by rwa [hbytes b hb], if_neg hc]

end Encoding

/-- The bytes of the source text from an index on. -/
structure Faces (source : String) (i : Nat) (bs : List UInt8) : Prop where
  le : i ≤ source.utf8ByteSize
  bytes : source.toUTF8.data.toList.drop i = bs

section Positions

variable {source : String} {p q : source.Pos} {i : Nat} {b : UInt8} {bs bs' : List UInt8}
  {front text rest cs : List Char}

namespace Faces

theorem length (h : Faces source i bs) : i + bs.length = source.utf8ByteSize := by
  have hsize : source.toUTF8.data.toList.length = source.utf8ByteSize := size_toByteArray
  have hle := h.le
  rw [← h.bytes, List.length_drop, hsize]
  omega

theorem append (h : Faces source i (bs ++ bs')) : Faces source (i + bs.length) bs' := by
  have hlength := h.length
  rw [List.length_append] at hlength
  refine ⟨by omega, ?_⟩
  rw [← List.drop_drop, h.bytes, List.drop_left]

theorem tail (h : Faces source i (b :: bs)) : Faces source (i + 1) bs := by
  rw [← List.singleton_append] at h
  exact h.append

theorem head (h : Faces source i (b :: bs)) : source.toUTF8.data[i]? = some b := by
  have hdrop : (source.toUTF8.data.toList.drop i)[0]? = some b := by rw [h.bytes]; rfl
  rwa [List.getElem?_drop, Nat.add_zero, Array.getElem?_toList] at hdrop

theorem extract (h : Faces source i (bs ++ bs')) :
    (source.toUTF8.data.extract i (i + bs.length)).toList = bs := by
  rw [Array.toList_extract, List.extract_eq_take_drop, h.bytes, Nat.add_sub_cancel_left,
    List.take_left]

end Faces

namespace Source.Parts

/-- A position between two texts faces the bytes of the second. -/
theorem faces (h : Parts p front rest) : Faces source p.offset.byteIdx (encode rest) := by
  have hbytes : source.toUTF8.data.toList = encode front ++ encode rest := by
    rw [h.eq_append, ← ofList_append, toUTF8_ofList, encode_append]
  have hindex : p.offset.byteIdx = (encode front).length := by rw [h.byteIdx, length_encode]
  refine ⟨p.isValid.le_rawEndPos, ?_⟩
  rw [hbytes, hindex, List.drop_left]

/-- The position that lies behind a text by the number of its bytes. -/
theorem exists_ahead (h : Parts p front (text ++ rest)) :
    ∃ q : source.Pos, Parts q (front ++ text) rest ∧
      q.offset.byteIdx = p.offset.byteIdx + (encode text).length := by
  obtain ⟨q, hq⟩ := h.exists_next
  refine ⟨q, hq, ?_⟩
  rw [hq.byteIdx, h.byteIdx, ofList_append, utf8ByteSize_append, length_encode]

end Source.Parts

theorem pos?_offset (p : source.Pos) : source.pos? p.offset = some p := by
  have hvalid : Pos.Raw.isValidForSlice source.toSlice p.offset = true :=
    Pos.Raw.isValidForSlice_eq_true_iff.2 (Pos.Raw.isValidForSlice_toSlice_iff.2 p.isValid)
  rw [pos?, Slice.pos?, dif_pos hvalid]
  rfl

end Positions

end ClassScript
