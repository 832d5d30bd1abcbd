import ClassScript.Program.Outline

/-! # Forms

What outlines are made of: words, quoted texts, the signatures of functions, and parenthesized lists
that begin with a word.  Quoted texts may hold any character but the quote, and nothing is escaped.
Still a text is written by one form only, however it goes on behind that form.
-/
namespace ClassScript

inductive Form where
  | word (text : String)
  | quoted (text : String)
  | signature (name : String) (parameters : List String)
  | list (head : String) (items : List Form)

namespace Form

mutual

def chars : Form → List Char
  | word text => text.toList
  | quoted text => '"' :: (text.toList ++ ['"'])
  | signature name parameters =>
    name.toList ++ '(' :: ([' '].intercalate (parameters.map String.toList) ++ [')'])
  | list head items => '(' :: (head.toList ++ (charsAfter ' ' items ++ [')']))

/-- Each form with a separator before it. -/
def charsAfter (separator : Char) : List Form → List Char
  | [] => []
  | f :: fs => separator :: (f.chars ++ charsAfter separator fs)

end

/-- A character that may stand in a word: no blank, no parenthesis, no quote. -/
def isPlain (c : Char) : Bool := !(c == ' ' || c == '\n' || c == '(' || c == ')' || c == '"')

/-- The text is a word. -/
structure IsWord (text : String) : Prop where
  nonempty : text.toList ≠ []
  plain : ∀ c ∈ text.toList, isPlain c = true

mutual

/-- Words are words, and quoted texts have no quotes in them. -/
def Clear : Form → Prop
  | word text => IsWord text
  | quoted text => '"' ∉ text.toList
  | signature name parameters => IsWord name ∧ ∀ p ∈ parameters, IsWord p
  | list head items => IsWord head ∧ ClearAll items

def ClearAll : List Form → Prop
  | [] => True
  | f :: fs => f.Clear ∧ ClearAll fs

end

/-- What may stand behind a form. -/
def Follows (cs : List Char) : Prop := ∀ c ∈ cs.head?, c = ' ' ∨ c = '\n' ∨ c = ')'

/-- Two texts that begin with characters of a class and go on with one of another class. -/
theorem span_unique {p : Char → Bool} {u v r s : List Char} (hu : ∀ c ∈ u, p c = true)
    (hv : ∀ c ∈ v, p c = true) (hr : ∀ c ∈ r.head?, p c = false) (hs : ∀ c ∈ s.head?, p c = false)
    (h : u ++ r = v ++ s) : u = v ∧ r = s := by
  have hstop {t : List Char} (ht : ∀ c ∈ t.head?, p c = false) : t.takeWhile p = [] := by
    cases t with
    | nil => rfl
    | cons c t => simp [ht c rfl]
  have huv : u = v := by
    have htake := congrArg (List.takeWhile p) h
    rwa [List.takeWhile_append_of_pos hu, List.takeWhile_append_of_pos hv, hstop hr, hstop hs,
      List.append_nil, List.append_nil] at htake
  subst huv
  exact ⟨rfl, List.append_cancel_left h⟩

theorem Follows.not_plain {r : List Char} (h : Follows r) : ∀ c ∈ r.head?, isPlain c = false := by
  intro c hc
  rcases h c hc with rfl | rfl | rfl <;> rfl

theorem not_plain_paren (r : List Char) : ∀ c ∈ ('(' :: r).head?, isPlain c = false := by
  simp [isPlain]

theorem IsWord.append_inj {t t' : String} {r s : List Char} (ht : IsWord t) (ht' : IsWord t')
    (hr : ∀ c ∈ r.head?, isPlain c = false) (hs : ∀ c ∈ s.head?, isPlain c = false)
    (h : t.toList ++ r = t'.toList ++ s) : t = t' ∧ r = s := by
  obtain ⟨htext, hrest⟩ := span_unique ht.plain ht'.plain hr hs h
  exact ⟨String.toList_inj.1 htext, hrest⟩

/-- The first character of a word is not any of the others. -/
theorem IsWord.ne_cons {t : String} (ht : IsWord t) {c : Char} (hc : isPlain c = false)
    (r s : List Char) : t.toList ++ r ≠ c :: s := by
  intro h
  obtain ⟨first, rest, htext⟩ := List.exists_cons_of_ne_nil ht.nonempty
  rw [htext, List.cons_append] at h
  obtain rfl := List.head_eq_of_cons_eq h
  have hplain := ht.plain first (by simp [htext])
  simp [hc] at hplain

theorem quoted_append_inj {t t' : String} {r s : List Char} (ht : '"' ∉ t.toList)
    (ht' : '"' ∉ t'.toList) (h : t.toList ++ '"' :: r = t'.toList ++ '"' :: s) :
    t = t' ∧ r = s := by
  have hclass {t : String} (ht : '"' ∉ t.toList) : ∀ c ∈ t.toList, (c != '"') = true := by
    rintro c hc
    simpa using fun heq : c = '"' => ht (heq ▸ hc)
  obtain ⟨htext, hrest⟩ :=
    span_unique (hclass ht) (hclass ht') (by simp) (by simp) h
  exact ⟨String.toList_inj.1 htext, List.tail_eq_of_cons_eq hrest⟩

/-- No other form begins a text in this way. -/
def Unique (f : Form) : Prop :=
  ∀ g : Form, g.Clear → ∀ r s, Follows r → Follows s → f.chars ++ r = g.chars ++ s →
    f = g ∧ r = s

/-- Where a sequence of forms ends, no separator follows. -/
def Ends (separator : Char) (r : List Char) : Prop := Follows r ∧ r.head? ≠ some separator

theorem ends_paren (r : List Char) : Ends ' ' (')' :: r) := by
  refine ⟨?_, by simp⟩
  rintro c ⟨⟩
  exact .inr (.inr rfl)

theorem Ends.follows_charsAfter {separator : Char} {r : List Char}
    (hseparator : Follows [separator]) (hr : Ends separator r) (fs : List Form) :
    Follows (charsAfter separator fs ++ r) := by
  cases fs with
  | nil => exact hr.1
  | cons f fs => exact hseparator

/-- Forms with separators are unique if each of them is. -/
theorem charsAfter_append_inj {separator : Char} (hseparator : Follows [separator])
    {fs gs : List Form} (hfs : ∀ f ∈ fs, f.Unique) (hgs : ClearAll gs) {r s : List Char}
    (hr : Ends separator r) (hs : Ends separator s)
    (h : charsAfter separator fs ++ r = charsAfter separator gs ++ s) : fs = gs ∧ r = s := by
  induction fs generalizing gs with
  | nil =>
    cases gs with
    | nil => exact ⟨rfl, h⟩
    | cons g gs => exact absurd (congrArg List.head? h) hr.2
  | cons f fs ih =>
    cases gs with
    | nil => exact absurd (congrArg List.head? h).symm hs.2
    | cons g gs =>
      obtain ⟨hf, hfs⟩ := List.forall_mem_cons.1 hfs
      simp only [charsAfter, List.cons_append, List.append_assoc] at h
      obtain ⟨rfl, hrest⟩ := hf g hgs.1 _ _ (hr.follows_charsAfter hseparator fs)
        (hs.follows_charsAfter hseparator gs) (List.tail_eq_of_cons_eq h)
      obtain ⟨rfl, rfl⟩ := ih hfs hgs.2 hrest
      exact ⟨rfl, rfl⟩

theorem cons_intercalate (separator : Char) (f : Form) (fs : List Form) :
    separator :: [separator].intercalate ((f :: fs).map chars) =
      charsAfter separator (f :: fs) := by
  induction fs generalizing f with
  | nil => simp [charsAfter]
  | cons g fs ih =>
    rw [charsAfter, ← ih g]
    simp

/-- A form does not begin with what may stand behind one. -/
theorem Clear.not_follows {f : Form} (hf : f.Clear) (r : List Char) : ¬ Follows (f.chars ++ r) := by
  have hword {text : String} (htext : IsWord text) (r : List Char) :
      ¬ Follows (text.toList ++ r) := by
    obtain ⟨c, cs, hcs⟩ := List.exists_cons_of_ne_nil htext.nonempty
    intro hfollows
    have hplain := htext.plain c (by simp [hcs])
    rw [hfollows.not_plain c (by simp [hcs])] at hplain
    cases hplain
  cases f with
  | word text => exact hword hf r
  | quoted text => simp [chars, Follows]
  | signature name parameters =>
    rw [chars, List.append_assoc]
    exact hword hf.1 _
  | list head items => simp [chars, Follows]

/-- The same with separators between the forms only. -/
theorem intercalate_append_inj {separator : Char} (hseparator : Follows [separator])
    {fs gs : List Form} (hunique : ∀ f ∈ fs, f.Unique) (hfs : ClearAll fs) (hgs : ClearAll gs)
    {r s : List Char} (hr : Ends separator r) (hs : Ends separator s)
    (h : [separator].intercalate (fs.map chars) ++ r =
      [separator].intercalate (gs.map chars) ++ s) : fs = gs ∧ r = s := by
  have hblank := congrArg (List.cons separator) h
  cases fs with
  | nil =>
    cases gs with
    | nil => exact ⟨rfl, h⟩
    | cons g gs =>
      rw [← List.cons_append, ← List.cons_append, cons_intercalate] at hblank
      simp only [charsAfter, List.cons_append, List.append_assoc] at hblank
      have hfollows := hr.1
      rw [show r = _ from List.tail_eq_of_cons_eq hblank] at hfollows
      exact absurd hfollows (Clear.not_follows hgs.1 _)
  | cons f fs =>
    cases gs with
    | nil =>
      rw [← List.cons_append, ← List.cons_append, cons_intercalate] at hblank
      simp only [charsAfter, List.cons_append, List.append_assoc] at hblank
      have hfollows := hs.1
      rw [← show _ = s from List.tail_eq_of_cons_eq hblank] at hfollows
      exact absurd hfollows (Clear.not_follows hfs.1 _)
    | cons g gs =>
      rw [← List.cons_append, ← List.cons_append, cons_intercalate, cons_intercalate] at hblank
      exact charsAfter_append_inj hseparator hunique hgs hr hs hblank

theorem unique_word {text : String} (h : IsWord text) : (word text).Unique := by
  intro g hg r s hr hs heq
  cases g with
  | word text' =>
    obtain ⟨rfl, rfl⟩ := h.append_inj hg hr.not_plain hs.not_plain heq
    exact ⟨rfl, rfl⟩
  | quoted text' => exact absurd heq (h.ne_cons rfl _ _)
  | signature name parameters =>
    simp only [chars, List.append_assoc, List.cons_append] at heq
    -- The word would be the name, but a parenthesis does not follow a form.
    obtain ⟨-, rfl⟩ := h.append_inj hg.1 hr.not_plain (not_plain_paren _) heq
    exact absurd (hr '(' rfl) (by simp)
  | list head items => exact absurd heq (h.ne_cons rfl _ _)

theorem parameters_append_inj {ps qs : List String} (hps : ∀ p ∈ ps, IsWord p)
    (hqs : ∀ q ∈ qs, IsWord q) {r s : List Char}
    (h : [' '].intercalate (ps.map String.toList) ++ ')' :: r =
      [' '].intercalate (qs.map String.toList) ++ ')' :: s) : ps = qs ∧ r = s := by
  have hclear {ps : List String} (hps : ∀ p ∈ ps, IsWord p) : ClearAll (ps.map word) := by
    induction ps with
    | nil => trivial
    | cons p ps ih => exact ⟨hps p List.mem_cons_self, ih fun q hq => hps q (.tail _ hq)⟩
  have hunique : ∀ f ∈ ps.map word, f.Unique := by
    intro f hf
    obtain ⟨p, hp, rfl⟩ := List.mem_map.1 hf
    exact unique_word (hps p hp)
  have hchars (ps : List String) : (ps.map word).map chars = ps.map String.toList := by
    simp [chars, Function.comp_def]
  rw [← hchars, ← hchars] at h
  obtain ⟨hwords, hrest⟩ := intercalate_append_inj (by simp [Follows]) hunique (hclear hps)
    (hclear hqs) (ends_paren r) (ends_paren s) h
  exact ⟨List.map_inj_right (fun _ _ => word.inj) |>.1 hwords, List.tail_eq_of_cons_eq hrest⟩

mutual

/-- Every form that is clear is read in one way. -/
theorem unique_of_clear : ∀ f : Form, f.Clear → f.Unique
  | word _, h => unique_word h
  | quoted text, h => by
    intro g hg r s hr hs heq
    cases g with
    | quoted text' =>
      simp only [chars, List.cons_append, List.append_assoc, List.nil_append] at heq
      obtain ⟨rfl, rfl⟩ := quoted_append_inj h hg (List.tail_eq_of_cons_eq heq)
      exact ⟨rfl, rfl⟩
    | word text' => exact absurd heq.symm (IsWord.ne_cons hg rfl _ _)
    | signature name parameters =>
      simp only [chars, List.append_assoc] at heq
      exact absurd heq.symm (hg.1.ne_cons rfl _ _)
    | list head items => cases heq
  | signature name parameters, h => by
    intro g hg r s hr hs heq
    simp only [chars, List.append_assoc, List.cons_append, List.nil_append] at heq
    cases g with
    | signature name' parameters' =>
      simp only [chars, List.append_assoc, List.cons_append, List.nil_append] at heq
      obtain ⟨rfl, hrest⟩ :=
        h.1.append_inj hg.1 (not_plain_paren _) (not_plain_paren _) heq
      obtain ⟨rfl, rfl⟩ := parameters_append_inj h.2 hg.2 (List.tail_eq_of_cons_eq hrest)
      exact ⟨rfl, rfl⟩
    | word text' =>
      obtain ⟨-, rfl⟩ := h.1.append_inj hg (not_plain_paren _) hs.not_plain heq
      exact absurd (hs '(' rfl) (by simp)
    | quoted text' => exact absurd heq (h.1.ne_cons rfl _ _)
    | list head items => exact absurd heq (h.1.ne_cons rfl _ _)
  | list head items, h => by
    intro g hg r s hr hs heq
    cases g with
    | list head' items' =>
      simp only [chars, List.cons_append, List.append_assoc, List.nil_append] at heq
      have hstop (fs : List Form) (r : List Char) :
          ∀ c ∈ (charsAfter ' ' fs ++ ')' :: r).head?, isPlain c = false :=
        ((ends_paren r).follows_charsAfter (by simp [Follows]) fs).not_plain
      obtain ⟨rfl, hrest⟩ :=
        h.1.append_inj hg.1 (hstop _ _) (hstop _ _) (List.tail_eq_of_cons_eq heq)
      obtain ⟨rfl, hend⟩ := charsAfter_append_inj (by simp [Follows])
        (unique_of_clearAll items h.2) hg.2 (ends_paren r) (ends_paren s) hrest
      exact ⟨rfl, List.tail_eq_of_cons_eq hend⟩
    | word text' => exact absurd heq.symm (IsWord.ne_cons hg rfl _ _)
    | quoted text' => cases heq
    | signature name parameters =>
      simp only [chars, List.append_assoc] at heq
      exact absurd heq.symm (hg.1.ne_cons rfl _ _)

theorem unique_of_clearAll : ∀ fs : List Form, ClearAll fs → ∀ f ∈ fs, f.Unique
  | [], _ => fun _ hf => absurd hf List.not_mem_nil
  | f :: fs, h => List.forall_mem_cons.2 ⟨unique_of_clear f h.1, unique_of_clearAll fs h.2⟩

end

/-- Forms on lines of their own. -/
theorem lines_inj {fs gs : List Form} (hfs : ClearAll fs) (hgs : ClearAll gs)
    (h : ['\n'].intercalate (fs.map chars) = ['\n'].intercalate (gs.map chars)) : fs = gs := by
  have hend : Ends '\n' [] := ⟨by simp [Follows], by simp⟩
  exact (intercalate_append_inj (by simp [Follows]) (unique_of_clearAll fs hfs) hfs hgs hend hend
    (by rw [h])).1

end Form

end ClassScript
