import ClassScript.Proofs.Scanning.Token
import Mathlib.Data.List.Forall2

/-! # Scanning and reading agree

From each position the scanner yields the next item of the source text, and it comes to the end.
-/
namespace ClassScript

open Source String

variable {source : String} {s s' : Scanner} {p : source.Pos} {c : Char}
  {front text rest cs : List Char} {n : Nat}

/-- The scanner stands at a position between two texts, on the line of that position, and has cut
the source text at positions only. -/
structure Scanner.Stands (s : Scanner) (p : source.Pos) (front rest : List Char) : Prop where
  parts : Parts p front rest
  position : s.position = p.offset.byteIdx
  line : s.line = 1 + front.count '\n'
  cuts : ∀ e ∈ s.cuts, e.Sound source

/-- The scanner has come to `s'` by yielding an item of the text `cs`, and `rest` is left. -/
structure Scanner.Yielded (s s' : Scanner) (p : source.Pos) (cs rest : List Char)
    (span : Span source) (item : Item) : Prop where
  stands : ∃ front, s'.Stands span.stop front rest
  yields : s'.yields = span.extent :: s.yields
  carries : span.Carries item
  lexes : ∀ items, Lexes s'.line rest items → Lexes s.line cs (item :: items)
  follows : ∀ spans, Follow span.stop spans → Follow p (span :: spans)
  shorter : (encode rest).length < (encode cs).length

/-- The scanner has come to `s'` by yielding the end token behind the text `cs`. -/
structure Scanner.Ended (s s' : Scanner) (p : source.Pos) (cs : List Char)
    (span : Span source) : Prop where
  position : s'.position = source.utf8ByteSize + 1
  cuts : ∀ e ∈ s'.cuts, e.Sound source
  yields : s'.yields = span.extent :: s.yields
  carries : span.Carries (.token (.endOfInput s'.line))
  lexes : Lexes s.line cs [.token (.endOfInput s'.line)]
  follows : Follow p [span]

namespace Scan

theorem next_end (h : s.Stands p front []) : ∃ s' span,
    next (n + 1) source s = some (some (.token (.endOfInput s'.line)), s') ∧
      s.Ended s' p [] span := by
  obtain rfl := h.parts.last
  have hle := Pos.le_refl source.endPos
  have hposition : s.position = source.utf8ByteSize := h.position
  refine ⟨{ s with position := s.position + 1, yields := ⟨s.position, s.position⟩ :: s.yields },
    ⟨source.endPos, source.endPos, hle⟩, ?_, ?_⟩
  · rw [next, bind_scanner, bind_size, if_neg (by omega), bind_size, if_pos hposition]
    rfl
  · exact
      { position := congrArg (· + 1) hposition
        cuts := h.cuts
        yields := by rw [Span.extent, ← h.position]
        carries := ⟨(Span.text_self hle).symm, h.line.trans (h.parts.line_eq hle).symm,
          by simp [Token.endOfInput]⟩
        lexes := .finish
        follows := .cons hle rfl }

/-- The item of the text that was taken is yielded. -/
theorem deliver_within (h : s.Within p front text rest) (e : Option Item) :
    ∃ s', deliver e source s = some (s.offered e text, s') ∧
      s'.position = s.position ∧ s'.line = s.line ∧
      (∀ cut ∈ s'.cuts, cut ∈ s.cuts ∨ cut.Sound source) ∧
      s'.yields = ((s.offered e text).map fun _ => ⟨s.start, s.position⟩).toList ++ s.yields := by
  cases e with
  | some error => exact ⟨_, rfl, rfl, rfl, fun cut hcut => .inl hcut, rfl⟩
  | none =>
    rw [deliver, bind_eq (a := s.pending) rfl, Scanner.offered]
    cases s.pending with
    | none => exact ⟨_, rfl, rfl, rfl, fun cut hcut => .inl hcut, rfl⟩
    | some token =>
      obtain ⟨kind, literal⟩ := token
      obtain ⟨hcut, hsound⟩ :=
        Scanner.Within.cutText (s := { s with pending := none }) ⟨h.parts, h.start, h.position⟩
      refine ⟨_, bind_eq hcut, rfl, rfl, ?_, rfl⟩
      exact List.forall_mem_cons.2 ⟨.inr hsound, fun cut hcut => .inl hcut⟩

/-- What a call of the scanner takes is yielded, or the scanner goes on behind it. -/
theorem next_token (h : s.Stands p front (c :: cs)) (hn : (encode (c :: cs)).length ≤ n) :
    ∃ (s' : Scanner) (text rest : List Char) (item? : Option Item) (span : Span source),
      text ++ rest = c :: cs ∧ span.start = p ∧ s'.Stands span.stop (front ++ text) rest ∧
      s'.line = s.line + text.count '\n' ∧ Takes s'.line text rest item? ∧
      s'.yields = (item?.map fun _ => span.extent).toList ++ s.yields ∧
      next (n + 1) source s = match item? with
        | some item => some (some item, s')
        | none => next n source s' := by
  have hlt : s.position < source.utf8ByteSize := by
    have hlength := h.parts.faces.length
    have hpos := length_encode_pos (List.cons_ne_nil c cs)
    rw [← h.position] at hlength
    omega
  have htakesOff : (token n).TakesOff { s with start := s.position, pending := none } p front
      (c :: cs) := token_takesOff h.parts h.position h.position rfl hn
  obtain ⟨e, z, text, rest, htoken, htext, hwithin, hline, hyields, hcuts, htakes⟩ := htakesOff
  obtain ⟨s', hdeliver, hposition, hline', hcuts', hyields'⟩ := deliver_within hwithin e
  obtain ⟨span, hstart, hextent, hstop, -⟩ := hwithin.exists_span
  refine ⟨s', text, rest, z.offered e text, span, htext, hstart, ⟨hstop, ?_, ?_, ?_⟩,
    hline'.trans hline, hline'.symm ▸ htakes, ?_, ?_⟩
  · exact hposition.trans (congrArg Extent.stop hextent).symm
  · rw [hline', hline, List.count_append, ← Nat.add_assoc, ← h.line]
  · exact fun cut hcut =>
      (hcuts' cut hcut).elim (fun hcut => (hcuts cut hcut).elim (h.cuts cut) id) id
  · rw [hyields', hyields, hextent]
  · rw [next, bind_scanner, bind_size, if_neg (by omega), bind_size, if_neg (by omega),
      bind_eq (a := ()) rfl, bind_eq htoken, bind_eq hdeliver]
    cases z.offered e text <;> rfl

/-- The next item is yielded, or the end token where only blanks and comments are left. -/
theorem next_yields (h : s.Stands p front cs) (hn : (encode cs).length < n) :
    (∃ (s' : Scanner) (rest : List Char) (item : Item) (span : Span source),
      next n source s = some (some item, s') ∧ s.Yielded s' p cs rest span item) ∨
    ∃ (s' : Scanner) (span : Span source),
      next n source s = some (some (.token (.endOfInput s'.line)), s') ∧ s.Ended s' p cs span := by
  induction n generalizing s p front cs with
  | zero => exact absurd hn (Nat.not_lt_zero _)
  | succ n ih =>
    cases cs with
    | nil => exact .inr (next_end h)
    | cons c cs =>
      obtain ⟨s₁, text, rest, item?, span, htext, rfl, hstands, hline, htakes, hyields, hnext⟩ :=
        next_token h (Nat.le_of_lt_succ hn)
      rw [hnext, ← htext]
      have hparts := h.parts
      rw [← htext] at hparts hn
      have hlength : (encode rest).length < (encode (text ++ rest)).length := by
        rw [encode_append, List.length_append]
        exact Nat.lt_add_of_pos_left (length_encode_pos htakes.ne_nil)
      rw [hline] at htakes
      cases item? with
      | some item =>
        refine .inl ⟨s₁, rest, item, span, rfl, ?_⟩
        obtain ⟨hle, hcarries⟩ := htakes.carries hparts hstands.parts (hline ▸ hstands.line)
        exact
          { stands := ⟨_, hstands⟩
            yields := hyields
            carries := hcarries
            lexes := fun items hitems => .step htakes (hline ▸ hitems)
            follows := fun spans hspans => .cons hle hspans
            shorter := hlength }
      | none =>
        have hskip {spans : List (Span source)} (hne : spans ≠ []) :
            Follow span.stop spans → Follow span.start spans :=
          Follow.skip hparts hstands.parts htakes.filler hne
        have hlexes {items : List Item} (hitems : Lexes s₁.line rest items) :
            Lexes s.line (text ++ rest) items := .step htakes (hline ▸ hitems)
        rcases ih hstands (by omega) with
          ⟨s', rest', item, span', hnext', hyielded⟩ | ⟨s', span', hnext', hended⟩
        · refine .inl ⟨s', rest', item, span', hnext', ?_⟩
          exact
            { stands := hyielded.stands
              yields := hyielded.yields.trans (by rw [hyields]; rfl)
              carries := hyielded.carries
              lexes := fun items hitems => hlexes (hyielded.lexes items hitems)
              follows := fun spans hspans =>
                hskip (List.cons_ne_nil _ _) (hyielded.follows _ hspans)
              shorter := hyielded.shorter.trans hlength }
        · refine .inr ⟨s', span', hnext', ?_⟩
          exact
            { position := hended.position
              cuts := hended.cuts
              yields := hended.yields.trans (by rw [hyields]; rfl)
              carries := hended.carries
              lexes := hlexes hended.lexes
              follows := hskip (List.cons_ne_nil _ _) hended.follows }

/-- Behind the end nothing is yielded. -/
theorem all_ended (h : s.position = source.utf8ByteSize + 1) :
    all (n + 2) source s = some ([], s) := by
  have hnext : next (n + 1) source s = some (none, s) := by
    rw [next, bind_scanner, bind_size, if_pos (by omega)]
    rfl
  rw [all, bind_eq hnext]
  rfl

/-- The scanner yields the items of the text that it faces, each with its span, and comes to the
end. -/
theorem all_yields (h : s.Stands p front cs) (hn : (encode cs).length + 3 ≤ n) :
    ∃ (s' : Scanner) (items : List Item) (spans : List (Span source)),
      all n source s = some (items, s') ∧ Lexes s.line cs items ∧
      s'.position = source.utf8ByteSize + 1 ∧ (∀ cut ∈ s'.cuts, cut.Sound source) ∧
      s'.yields = (spans.map Span.extent).reverse ++ s.yields ∧
      List.Forall₂ Span.Carries spans items ∧ Follow p spans := by
  induction n generalizing s p front cs with
  | zero => omega
  | succ n ih =>
    rcases next_yields h (show (encode cs).length < n by omega) with
      ⟨s₁, rest, item, span, hnext, hyielded⟩ | ⟨s₁, span, hnext, hended⟩
    · obtain ⟨front', hstands⟩ := hyielded.stands
      have hshorter := hyielded.shorter
      obtain ⟨s', items, spans, hall, hlexes, hposition, hcuts, hyields, hcarries, hfollow⟩ :=
        ih hstands (by omega)
      refine ⟨s', item :: items, span :: spans, ?_, hyielded.lexes _ hlexes, hposition, hcuts, ?_,
        .cons hyielded.carries hcarries, hyielded.follows _ hfollow⟩
      · rw [all, bind_eq hnext]
        exact bind_eq hall
      · rw [hyields, hyielded.yields, List.map_cons, List.reverse_cons, List.append_assoc]
        rfl
    · obtain ⟨m, rfl⟩ : ∃ m, n = m + 2 := ⟨n - 2, by omega⟩
      refine ⟨s₁, [.token (.endOfInput s₁.line)], [span], ?_, hended.lexes, hended.position,
        hended.cuts, hended.yields, .cons hended.carries .nil, hended.follows⟩
      rw [all, bind_eq hnext]
      exact bind_eq (all_ended hended.position)

end Scan

/-- A scanner that moves over the bytes of a source text reads and cuts nothing that is not there.
It comes to the end and yields the items of the text, at most one for a character and the end token
behind them.  Every item stands at its span, which is the extent at which it is yielded, and on the
line where the span ends; the spans are in order and do not overlap, and outside of them there is
nothing but blanks and comments. -/
theorem Source.items_spans (source : String) (more : Nat) :
    (∃ (s : Scanner) (spans : List (Span source)),
      scan (source.utf8ByteSize + 3 + more) source = some (items source, s) ∧
      s.position = source.utf8ByteSize + 1 ∧ (∀ cut ∈ s.cuts, cut.Sound source) ∧
      s.yields.reverse = spans.map Span.extent ∧
      List.Forall₂ Span.Carries spans (items source) ∧
      spans.Pairwise (fun before after => before.stop ≤ after.start) ∧
        Follow source.startPos spans) ∧
      (items source).length ≤ source.length + 1 ∧
        (items source).getLast? =
          some (.token (.endOfInput (1 + source.toList.count '\n'))) := by
  have hstands : Scanner.Stands {} source.startPos [] source.toList :=
    ⟨Parts.first source, rfl, rfl, fun _ h => absurd h List.not_mem_nil⟩
  have hsize : (encode source.toList).length = source.utf8ByteSize := by
    rw [length_encode, ofList_toList]
  obtain ⟨s, is, spans, hall, hlexes, hposition, hcuts, hyields, hcarries, hfollow⟩ :=
    Scan.all_yields hstands (n := source.utf8ByteSize + 3 + more) (by omega)
  obtain rfl : is = items source := hlexes.itemsFrom_eq
  refine ⟨⟨s, spans, hall, hposition, hcuts, ?_, hcarries, hfollow.pairwise.2, hfollow⟩,
    hlexes.length_le, hlexes.getLast⟩
  rw [hyields, List.append_nil, List.reverse_reverse]

end ClassScript
