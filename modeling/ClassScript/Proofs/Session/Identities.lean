import ClassScript.Proofs.Scoping.Distances
import ClassScript.Proofs.Session.Record

/-! # Identities of references

The source texts of a session draw the identities of their references from one counter, also those
that are refused.  So no two references have the same identity, in one program or in two, and what
the table of distances has for a reference is what was found at its own place.
-/
namespace ClassScript

namespace Program

/-- Source texts read one after another: the program or the reports of each of them, and the
identity of the next reference. -/
def ofSources (nextId : Nat) : List String → List (Except (List Report) Program) × Nat
  | [] => ([], nextId)
  | source :: sources =>
    let (reading, nextId) := ofSource nextId source
    let (readings, nextId) := ofSources nextId sources
    (reading :: readings, nextId)

/-- The identities in what was read. -/
def idsOf : Except (List Report) Program → List Nat
  | .ok program => Stmt.idsAll program
  | .error _ => []

theorem numbered_ofSource (nextId : Nat) (source : String) :
    Numbered nextId (idsOf (ofSource nextId source).1) (ofSource nextId source).2 := by
  have hspec := (ofSource_spec nextId source).2
  cases hread : (ofSource nextId source).1 with
  | error reports => exact .nil
  | ok program => exact (hspec program hread).2

theorem numbered_ofSources (nextId : Nat) (sources : List String) :
    nextId ≤ (ofSources nextId sources).2 ∧
      Numbered nextId ((ofSources nextId sources).1.flatMap idsOf)
        (ofSources nextId sources).2 := by
  induction sources generalizing nextId with
  | nil => exact ⟨Nat.le_refl _, .nil⟩
  | cons source sources ih =>
    have hfirst := (ofSource_spec nextId source).1
    obtain ⟨hle, hrest⟩ := ih (ofSource nextId source).2
    exact ⟨Nat.le_trans hfirst hle, (numbered_ofSource nextId source).append hrest hfirst hle⟩

theorem ofSources_append (nextId : Nat) (sources sources' : List String) :
    ofSources nextId (sources ++ sources') =
      ((ofSources nextId sources).1 ++ (ofSources (ofSources nextId sources).2 sources').1,
        (ofSources (ofSources nextId sources).2 sources').2) := by
  induction sources generalizing nextId with
  | nil => rfl
  | cons source sources ih => simp only [List.cons_append, ofSources, ih]

section Entries

variable {program : Program} {distances : Distances} {p : Place} {ref : Reference} {d : Nat}

theorem entry_other {id : Nat} (hid : id ∉ Stmt.idsAll program) :
    (program.analyze distances).distances[id]? = distances[id]? := by
  rcases program.distances_analyze distances id with ⟨p, ref, d, hrecords, rfl, -⟩ | ⟨-, hsame⟩
  · exact absurd hrecords.1.mem_ids hid
  · exact hsame

/-- Where all identities differ, the analysis enters for a reference what is found at its place. -/
theorem entry_own (hnodup : (Node.program program).ids.Nodup) (hnone : distances[ref.id]? = none)
    (hrefers : (Node.program program).Refers p ref) :
    (program.analyze distances).distances[ref.id]? = some d ↔
      (Node.program program).Records p ref d := by
  rcases program.distances_analyze distances ref.id with
    ⟨p', ref', d', hrecords, hid, hd⟩ | ⟨hnot, hsame⟩
  · obtain rfl := hrefers.place_unique hnodup hrecords.1 hid.symm
    obtain rfl := hrefers.unique hrecords.1
    rw [hd, Option.some.injEq]
    constructor
    · rintro rfl
      exact hrecords
    · intro h
      exact hrecords.2.1.unique h.2.1
  · rw [hsame, hnone]
    constructor
    · intro hd
      cases hd
    · intro hrecords
      exact absurd rfl (hnot p ref d hrecords)

end Entries

/-- An identity belongs to one text and to one place in its program. -/
theorem place_unique {nextId i j : Nat} {sources : List String} {p q : Program} {a b : Place}
    {ref ref' : Reference} (hi : (ofSources nextId sources).1[i]? = some (.ok p))
    (hj : (ofSources nextId sources).1[j]? = some (.ok q)) (ha : (Node.program p).Refers a ref)
    (hb : (Node.program q).Refers b ref') (hid : ref.id = ref'.id) : i = j ∧ a = b := by
  have hnodup := (numbered_ofSources nextId sources).2.nodup
  have hmem : ref.id ∈ idsOf (.ok p) := ha.mem_ids
  have hmem' : ref.id ∈ idsOf (.ok q) := hid ▸ hb.mem_ids
  obtain rfl := index_unique_of_nodup hnodup hi hj hmem hmem'
  obtain rfl : p = q := by simpa [hi] using hj
  have hinner : (Node.program p).ids.Nodup :=
    (List.nodup_flatMap.1 hnodup).1 (.ok p) (List.mem_of_getElem? hi)
  exact ⟨rfl, ha.place_unique hinner hb hid⟩

end Program

namespace Session

open Program (ofSource ofSources idsOf)

def Request.source? : Request → Option String
  | run _ _ source => some source
  | reset => none

/-- What was read has identities that were given out, and for each of its references the table has
the distance that is found at its place, and nothing if none is found there. -/
structure Tabled (s : Session) (readings : List (Except (List Report) Program)) : Prop where
  numbered : Numbered 0 (readings.flatMap idsOf) s.nextId
  unread : ∀ id, s.nextId ≤ id → s.world.distances[id]? = none
  entries : ∀ program, .ok program ∈ readings → ∀ p ref d, (Node.program program).Refers p ref →
    (s.world.distances[ref.id]? = some d ↔ (Node.program program).Records p ref d)

variable {s s' : Session} {readings : List (Except (List Report) Program)} {source : String}

/-- What reading and analysing a source text does to the counter and the table. -/
theorem prepare_table (s : Session) (source : String) :
    (s.prepare source).2.nextId = (ofSource s.nextId source).2 ∧
      (s.prepare source).2.world.distances =
        match (ofSource s.nextId source).1 with
        | .ok program => (program.analyze s.world.distances).distances
        | .error _ => s.world.distances := by
  unfold Session.prepare
  generalize ofSource s.nextId source = reading
  obtain ⟨reading, nextId⟩ := reading
  cases reading with
  | error reports => exact ⟨rfl, rfl⟩
  | ok program =>
    have hdistances : (s.world.analyze program).1.distances =
        (program.analyze s.world.distances).distances := rfl
    dsimp only
    split
    next world heq =>
      rw [heq] at hdistances
      exact ⟨rfl, hdistances⟩
    next world errors _ heq =>
      rw [heq] at hdistances
      exact ⟨rfl, hdistances⟩

namespace Tabled

/-- A text that is refused uses up identities. -/
theorem refuse (h : s.Tabled readings) {reports : List Report} (hle : s.nextId ≤ s'.nextId)
    (hdistances : s'.world.distances = s.world.distances) :
    s'.Tabled (readings ++ [.error reports]) where
  numbered := by simpa [idsOf] using h.numbered.mono (Nat.le_refl 0) hle
  unread id hid := by rw [hdistances, h.unread id (Nat.le_trans hle hid)]
  entries program hmem := by
    rw [hdistances]
    exact h.entries program (by simpa using hmem)

/-- The analysis of a program enters its own references and leaves all others alone. -/
theorem accept (h : s.Tabled readings) {program : Program} (hle : s.nextId ≤ s'.nextId)
    (hids : Numbered s.nextId (Stmt.idsAll program) s'.nextId)
    (hdistances : s'.world.distances = (program.analyze s.world.distances).distances) :
    s'.Tabled (readings ++ [.ok program]) where
  numbered := by
    rw [List.flatMap_append, List.flatMap_singleton]
    exact h.numbered.append hids (Nat.zero_le _) hle
  unread id hid := by
    have hnot : id ∉ Stmt.idsAll program := fun hmem =>
      absurd (hids.bounds id hmem).2 (Nat.not_lt.2 hid)
    rw [hdistances, Program.entry_other hnot, h.unread id (Nat.le_trans hle hid)]
  entries other hmem p ref d hrefers := by
    rw [hdistances]
    rcases List.mem_append.1 hmem with hold | hnew
    · have hknown : ref.id ∈ readings.flatMap idsOf :=
        List.mem_flatMap.2 ⟨.ok other, hold, hrefers.mem_ids⟩
      have hnot : ref.id ∉ Stmt.idsAll program := fun hmem =>
        absurd (hids.bounds ref.id hmem).1 (Nat.not_le.2 (h.numbered.bounds ref.id hknown).2)
      rw [Program.entry_other hnot]
      exact h.entries other hold p ref d hrefers
    · obtain rfl : other = program := by simpa using hnew
      have hunread := h.unread ref.id (hids.bounds ref.id hrefers.mem_ids).1
      exact Program.entry_own hids.nodup hunread hrefers

theorem prepare (h : s.Tabled readings) (source : String) :
    (s.prepare source).2.Tabled (readings ++ [(ofSource s.nextId source).1]) := by
  obtain ⟨hnextId, hdistances⟩ := prepare_table s source
  have hle := (Program.ofSource_spec s.nextId source).1
  have hids := Program.numbered_ofSource s.nextId source
  rw [← hnextId] at hle hids
  cases hread : (ofSource s.nextId source).1 with
  | error reports =>
    rw [hread] at hdistances
    exact h.refuse hle hdistances
  | ok program =>
    rw [hread] at hdistances hids
    exact h.accept hle hids hdistances

theorem keep (h : s.Tabled readings) (hnextId : s'.nextId = s.nextId)
    (hdistances : s'.world.distances = s.world.distances) : s'.Tabled readings where
  numbered := by
    rw [hnextId]
    exact h.numbered
  unread := by
    rw [hnextId, hdistances]
    exact h.unread
  entries := by
    rw [hdistances]
    exact h.entries

end Tabled

theorem world_start (w : World) (program : Program) : (w.start program).world = w := rfl

theorem distances_flush (w : World) (host : Host) : (w.flush host).distances = w.distances := by
  unfold World.flush
  split <;> rfl

/-- Execution leaves the counter and the table alone. -/
theorem run_table {host : Host} {steps : Nat} {outcome : Outcome}
    (hrun : s.run host steps source = some (outcome, s')) :
    s'.nextId = (s.prepare source).2.nextId ∧
      s'.world.distances = (s.prepare source).2.world.distances := by
  rcases run_cases hrun with ⟨hprepare, -⟩ | ⟨program, s₁, m, hprepare, hm, rfl, -⟩
  · rw [hprepare]
    exact ⟨rfl, rfl⟩
  · have hkept : ((s₁.world.start program).advance host steps).world.distances =
        s₁.world.distances := Machine.distances_advance steps
    rw [Machine.advance_of_run hm] at hkept
    rw [hprepare]
    exact ⟨rfl, (distances_flush m.world host).trans hkept⟩

theorem Tabled.answerAll (h : s.Tabled readings) {requests : List Request}
    {outcomes : List Outcome} (hanswer : s.answerAll requests = some (outcomes, s')) :
    s'.Tabled (readings ++ (ofSources s.nextId (requests.filterMap Request.source?)).1) ∧
      s'.nextId = (ofSources s.nextId (requests.filterMap Request.source?)).2 := by
  induction requests generalizing s readings outcomes with
  | nil =>
    obtain ⟨-, rfl⟩ := Prod.mk.inj (Option.some.inj hanswer)
    exact ⟨by simpa [ofSources] using h, rfl⟩
  | cons request requests ih =>
    obtain ⟨⟨first, s₁⟩, hfirst, hanswer⟩ := Option.bind_eq_some_iff.1 hanswer
    obtain ⟨⟨rest, s₂⟩, hrest, heq⟩ := Option.map_eq_some_iff.1 hanswer
    obtain ⟨-, rfl⟩ := Prod.mk.inj heq
    cases request with
    | reset =>
      obtain ⟨-, rfl⟩ := Prod.mk.inj (Option.some.inj hfirst)
      exact ih (s := s.reset) (h.keep rfl rfl) hrest
    | run host steps source =>
      obtain ⟨⟨outcome, s₁'⟩, hrun, heq⟩ := Option.map_eq_some_iff.1 hfirst
      obtain ⟨-, rfl⟩ := Prod.mk.inj heq
      obtain ⟨hnextId, hdistances⟩ := run_table hrun
      obtain ⟨htabled, hend⟩ := ih ((h.prepare source).keep hnextId hdistances) hrest
      rw [hnextId, (prepare_table s source).1] at htabled hend
      rw [List.append_assoc] at htabled
      exact ⟨htabled, hend⟩

theorem tabled_initial : Session.initial.Tabled [] where
  numbered := .nil
  unread := sound_initial.unread
  entries _ hmem := absurd hmem List.not_mem_nil

/-- References never share an identity.  However many source texts are read one after another, and
whether they are accepted or not, two references with the same identity are one: they stand in the
program of the same text and at the same place.  So wherever a session is in one of its runs, what
it has on record for a reference, in code that was read just now or long ago, is the distance that
is found at the place of this reference, and there is no record if none is found there. -/
theorem identities_unshared (nextId : Nat) (sources : List String) :
    (∀ (i j : Nat) (p q : Program) (a b : Place) (ref ref' : Reference),
      (ofSources nextId sources).1[i]? = some (.ok p) →
      (ofSources nextId sources).1[j]? = some (.ok q) → (Node.program p).Refers a ref →
      (Node.program q).Refers b ref' → ref.id = ref'.id → i = j ∧ a = b) ∧
    ∀ requests outcomes s host source m,
      Session.initial.answerAll requests = some (outcomes, s) → s.Visits host source m →
      ∀ program : Program,
      .ok program ∈ (ofSources 0 (requests.filterMap Request.source? ++ [source])).1 →
      ∀ p ref d, (Node.program program).Refers p ref →
        (m.world.distance? ref = some d ↔ (Node.program program).Records p ref d) := by
  refine ⟨fun i j p q a b ref ref' hi hj ha hb hid => Program.place_unique hi hj ha hb hid, ?_⟩
  intro requests outcomes s host source m hanswer hm program hmem p ref d hrefers
  obtain ⟨htabled, hnextId⟩ := tabled_initial.answerAll hanswer
  have hprepared := htabled.prepare source
  rw [hnextId] at hprepared
  obtain ⟨admitted, s₁, n, hprepare, rfl⟩ := hm
  have hkept : ((s₁.world.start admitted).advance host n).world.distances =
      s₁.world.distances := Machine.distances_advance n
  rw [hprepare] at hprepared
  rw [Program.ofSources_append] at hmem
  have hentries := hprepared.entries program (by simpa [ofSources, Session.initial] using hmem) p
    ref d hrefers
  rw [World.distance?, hkept]
  exact hentries

/-- A line is run, a line is refused, and the first line is run again: its reference is another one
now, and the table has both. -/
theorem identities_unshared_again :
    let host : Host := ⟨fun _ => .ok ⟨0⟩, .unlimited⟩
    let line := "{var b=1;{print b;}}"
    let name : Token := ⟨.identifier, "b", none, 1⟩
    ∃ (p q : Program) (s : Session) (m : Machine), s.Visits host line m ∧
      (Node.program p).Refers [0, 1, 0, 0] ⟨name, 0⟩ ∧
      (Node.program q).Refers [0, 1, 0, 0] ⟨name, 1⟩ ∧
      m.world.distance? ⟨name, 0⟩ = some 1 ∧ m.world.distance? ⟨name, 1⟩ = some 1 ∧
      (Node.program p).Records [0, 1, 0, 0] ⟨name, 0⟩ 1 ∧
      (Node.program q).Records [0, 1, 0, 0] ⟨name, 1⟩ 1 := by
  intro host line name
  let requests : List Request := [.run host 20 line, .run host 20 "print )"]
  let found (i : Nat) : Option Program :=
    ((ofSources 0 [line, "print )", line]).1[i]?).bind Except.toOption
  have hprogram (i : Nat) (p : Program) (hi : found i = some p) :
      .ok p ∈ (ofSources 0 (requests.filterMap Request.source? ++ [line])).1 := by
    obtain ⟨reading, hreading, hok⟩ := Option.bind_eq_some_iff.1 hi
    cases reading with
    | error reports => cases hok
    | ok program =>
      obtain rfl : program = p := Option.some.inj hok
      have hsources : requests.filterMap Request.source? ++ [line] = [line, "print )", line] := rfl
      rw [hsources]
      exact List.mem_of_getElem? hreading
  have hrefers (i : Nat) : i = 0 ∨ i = 2 → (found i).any (fun p => decide
      (((Node.program p).at? [0, 1, 0, 0]).bind Node.reference? = some ⟨name, i / 2⟩)) = true := by
    rintro (rfl | rfl) <;> decide +kernel
  have hsession : ((Session.initial.answerAll requests).any fun answer =>
      (answer.2.prepare line).1.isSome &&
        decide ((answer.2.prepare line).2.world.distances[0]? = some 1 ∧
          (answer.2.prepare line).2.world.distances[1]? = some 1)) = true := by
    decide +kernel
  obtain ⟨p, hp, hpref⟩ := (Option.any_eq_true _ _).1 (hrefers 0 (.inl rfl))
  obtain ⟨q, hq, hqref⟩ := (Option.any_eq_true _ _).1 (hrefers 2 (.inr rfl))
  obtain ⟨⟨outcomes, s⟩, hanswer, hall⟩ := (Option.any_eq_true _ _).1 hsession
  obtain ⟨hsome, hdistances⟩ := Bool.and_eq_true_iff.1 hall
  obtain ⟨hzero, hone⟩ := of_decide_eq_true hdistances
  let m : Machine := (s.prepare line).2.world.start ((s.prepare line).1.getD [])
  have hm : s.Visits host line m := ⟨_, _, 0, prepare_of_isSome hsome, rfl⟩
  have hp' : (Node.program p).Refers [0, 1, 0, 0] ⟨name, 0⟩ :=
    Option.bind_eq_some_iff.1 (of_decide_eq_true hpref)
  have hq' : (Node.program q).Refers [0, 1, 0, 0] ⟨name, 1⟩ :=
    Option.bind_eq_some_iff.1 (of_decide_eq_true hqref)
  have hshared := (identities_unshared 0 []).2 requests outcomes s host line m hanswer hm
  have hworld : m.world = (s.prepare line).2.world := world_start _ _
  have hfirst : m.world.distance? ⟨name, 0⟩ = some 1 := by rw [World.distance?, hworld, hzero]
  have hsecond : m.world.distance? ⟨name, 1⟩ = some 1 := by rw [World.distance?, hworld, hone]
  have hrecords := (hshared p (hprogram 0 p hp) _ _ 1 hp').1 hfirst
  have hrecords' := (hshared q (hprogram 2 q hq) _ _ 1 hq').1 hsecond
  exact ⟨p, q, s, m, hm, hp', hq', hfirst, hsecond, hrecords, hrecords'⟩

end Session

end ClassScript
