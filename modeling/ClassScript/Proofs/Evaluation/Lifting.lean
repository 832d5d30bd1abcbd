import ClassScript.Proofs.Evaluation.Stepping
import ClassScript.Proofs.Evaluation.Surroundings

/-! # Runs in other surroundings

A machine in order runs in its surroundings just as it does alone: to where it stops alone, and then
on with the frames below.  So running changes no distance, and a program runs statement by
statement.
-/
namespace ClassScript

open Store (Fits)

/-- The labels stay, and so do all that carry them. -/
theorem Expr.relabel_refl (e : Expr) : e.relabel {} = e :=
  Expr.relabel_eq_self (fun _ => rfl) e fun _ _ => rfl

theorem Expr.relabelAll_refl (es : List Expr) : Expr.relabelAll {} es = es :=
  Expr.relabelAll_eq_self (fun _ => rfl) es fun _ _ => rfl

theorem Stmt.relabel_refl (s : Stmt) : s.relabel {} = s :=
  Stmt.relabel_eq_self (fun _ => rfl) s fun _ _ => rfl

theorem Stmt.relabelAll_refl (ss : List Stmt) : Stmt.relabelAll {} ss = ss :=
  Stmt.relabelAll_eq_self (fun _ => rfl) ss fun _ _ => rfl

theorem Closure.relabel_refl (c : Closure) : c.relabel {} = c := by
  rw [Closure.relabel, FunctionDecl.relabel_eq_self (fun _ => rfl) _ fun _ _ => rfl]

theorem Fault.relabel_refl (f : Fault) : f.relabel {} = f := by
  cases f <;> rfl

theorem Report.relabel_eq_self {ρ : Relabeling} (hline : ρ.KeepsLines) (r : Report) :
    r.relabel ρ = r := by
  cases r <;> simp [Report.relabel, hline _, Token.relabel_eq_self hline]

theorem Log.relabel_eq_self {ρ : Relabeling} (hline : ρ.KeepsLines) {log : Log}
    (h : log.Rendered) : log.relabel ρ = log := by
  have hid : Report.relabel ρ = id := funext (Report.relabel_eq_self hline)
  simp only [Log.relabel, hid, Array.map_id, id_eq, ← h.texts]

theorem Log.relabel_refl {log : Log} (h : log.Rendered) : log.relabel {} = log :=
  Log.relabel_eq_self (fun _ => rfl) h

theorem Log.empty_append (log : Log) : ({} : Log).append log = log := by
  simp [Log.append]

theorem Store.relabel_refl (s : Store) : s.relabel {} = s :=
  Store.relabel_eq_self (fun _ => rfl) (fun _ _ _ => rfl) fun _ _ _ _ _ _ => rfl

theorem Frame.relabel_refl (f : Frame) : f.relabel {} = f := by
  cases f with
  | branch s t => cases t <;> simp [Frame.relabel, Stmt.relabel_refl]
  | _ =>
    simp [Frame.relabel, Token.relabel, Reference.relabel, Expr.relabel_refl, Expr.relabelAll_refl,
      Stmt.relabel_refl, Stmt.relabelAll_refl, Closure.relabel_refl]

theorem Control.relabel_refl (c : Control) : c.relabel {} = c := by
  cases c <;> simp [Control.relabel, Expr.relabel_refl, Stmt.relabel_refl, Fault.relabel_refl]

/-- The machine with nothing reported yet. -/
def Machine.unreported (m : Machine) : Machine := { m with world := { m.world with log := {} } }

theorem Machine.inside_unreported (m : Machine) (distances : Distances) (below : List Frame) :
    m.unreported.inside { distances, below, before := m.world.log } =
      { m with frames := m.frames ++ below, world := { m.world with distances } } := by
  have hid : Frame.relabel {} = id := funext Frame.relabel_refl
  simp [Machine.inside, Machine.unreported, World.inside, Control.relabel_refl, hid,
    Store.relabel_refl, Log.relabel, Log.append]

/-- The surroundings have the recorded distances. -/
def Surroundings.Agrees (σ : Surroundings) (R : Recorded) : Prop :=
  ∀ id d, R id d → σ.distances[σ.number id]? = d

namespace Machine

variable {R : Recorded} {σ : Surroundings} {host : Host} {m m' z : Machine}

/-- Something is recorded for every reference that a machine in order is about to look up. -/
theorem Sound.recorded (h : m.Sound R) {ref : Reference}
    (href : m.read? = some ref ∨ m.rebound? = some ref) : ∃ d, R ref.id d := by
  rcases href with hread | hrebound
  · rcases read?_cases hread with
      hcontrol | hcontrol | ⟨method, hcontrol⟩ | ⟨name, methods, hcontrol⟩
    · obtain ⟨_, _, -, he⟩ := h.ofEval hcontrol
      exact ⟨_, he.1.2⟩
    · obtain ⟨_, _, -, -, -, d, -, hd⟩ := h.ofEval hcontrol
      exact ⟨_, hd⟩
    · obtain ⟨_, _, -, -, -, d, -, -, hd⟩ := h.ofEval hcontrol
      exact ⟨_, hd⟩
    · obtain ⟨_, -, -, href, -⟩ := h.ofSuperclass hcontrol
      exact ⟨_, href.2⟩
  · rcases rebound?_cases hrebound with ⟨e, hcontrol⟩ | ⟨v, fs, hcontrol, hframes⟩
    · obtain ⟨_, _, -, he⟩ := h.ofEval hcontrol
      exact ⟨_, he.1.2⟩
    · obtain ⟨_, _, -, href⟩ := h.ofRebind hcontrol hframes
      exact ⟨_, href.2⟩

theorem isFinal_inside_of_going (h : m.isFinal = false) : (m.inside σ).isFinal = false := by
  obtain ⟨control, frames, scope, world⟩ := m
  cases control with
  | eval e | exec s => rfl
  | _ =>
    cases frames with
    | nil => cases h
    | cons f fs => rfl

theorem isFinal_inside_of_final (h : m.isFinal = true) (hbelow : σ.below = []) :
    (m.inside σ).isFinal = true := by
  obtain ⟨control, frames, scope, world⟩ := m
  cases control with
  | eval e | exec s => cases h
  | _ =>
    obtain rfl : frames = [] := by simpa [isFinal] using h
    simp [isFinal, inside, Control.relabel, hbelow]

/-- The surroundings leave out nothing of which the sink takes notice, and whatever the machine
looks up while it runs has the same distance there. -/
structure SharesRun (host : Host) (m : Machine) (σ : Surroundings) : Prop where
  hears : σ.Hears host.sink
  looks : ∀ n, (m.advance host n).Shares σ

theorem SharesRun.now (h : SharesRun host m σ) : m.Shares σ := h.looks 0

theorem SharesRun.step (h : SharesRun host m σ) (hgoing : m.isFinal = false) :
    SharesRun host (m.step host) σ := by
  refine ⟨h.hears, fun n => ?_⟩
  have hnext := h.looks (n + 1)
  rwa [Machine.advance, if_neg (by simp [hgoing])] at hnext

/-- A step changes no distance. -/
theorem distances_step : (m.step host).world.distances = m.world.distances := by
  cases hfinal : m.isFinal with
  | true =>
    obtain ⟨control, frames, scope, world⟩ := m
    cases control with
    | eval e | exec s => cases hfinal
    | _ =>
      obtain rfl : frames = [] := by simpa [isFinal] using hfinal
      rfl
  | false =>
    let σ : Surroundings := { distances := m.world.distances, before := m.world.log }
    have hself : m.unreported.inside σ = m := by
      rw [inside_unreported, List.append_nil]
    have hstep : (m.unreported.inside σ).step host = (m.unreported.step host).inside σ :=
      inside_step (fun _ _ => rfl) (fun _ _ => rfl) hfinal
    rw [hself] at hstep
    rw [hstep]
    rfl

theorem distances_advance (n : Nat) : (m.advance host n).world.distances = m.world.distances :=
  advance_keeps host (P := fun m' => m'.world.distances = m.world.distances)
    (fun _ hm' => distances_step.trans hm') rfl n

/-- Surroundings with all the distances of the world have those that are looked up. -/
theorem sharesRun_of_all (hears : σ.Hears host.sink)
    (h : ∀ i, σ.distances[σ.number i]? = m.world.distances[i]?) : SharesRun host m σ := by
  refine ⟨hears, fun n ref _ => ?_⟩
  rw [World.Shares, World.distance?, distances_advance]
  exact h ref.id

/-- With no frames below, it stops when it stops alone, and where. -/
theorem run_inside (h : SharesRun host m σ) (hbelow : σ.below = []) (n : Nat) :
    (m.inside σ).run host n = (m.run host n).map (inside σ) := by
  induction n generalizing m with
  | zero => rfl
  | succ n ih =>
    rw [Machine.run, Machine.run]
    cases hfinal : m.isFinal with
    | true => simp [isFinal_inside_of_final hfinal hbelow]
    | false =>
      rw [isFinal_inside_of_going hfinal, inside_step h.now h.hears hfinal]
      exact ih (h.step hfinal)

theorem Sound.ends (h : m.Sound R) (hends : Ends host m z) : z.Sound R := by
  obtain ⟨n, hn⟩ := hends
  rw [← advance_of_run hn]
  exact h.advance host n

/-- Where nothing is left to do, evaluation is at global scope and has ended normally or with a
fault. -/
theorem Sound.at_end (h : m.Sound R) (hfinal : m.isFinal = true) :
    m.frames = [] ∧ m.scope = globalScope ∧
      (m.control = .done .normal ∨ ∃ f, m.control = .fault f) := by
  have hframes : m.frames = [] := by
    cases h with
    | eval hcontrol | exec hcontrol => simp [isFinal, hcontrol] at hfinal
    | value hcontrol | text hcontrol | done hcontrol | fault hcontrol =>
      simpa [isFinal, hcontrol] using hfinal
  have hempty {kind : Awaited} {fn : FunctionContext} {ctx : Context}
      (hstack : Stack R m.world.Clean m.world.store kind fn ctx m.scope m.frames) :
      kind = .done ∧ fn = .outside ∧ m.scope = globalScope := by
    rw [hframes] at hstack
    cases hstack with
    | nil hk => exact ⟨rfl, rfl, hk⟩
  refine ⟨hframes, ?_⟩
  cases h with
  | eval hcontrol | exec hcontrol => simp [isFinal, hcontrol] at hfinal
  | value hcontrol hat | text hcontrol hat => cases (hempty hat.stack).1
  | @done c _ _ hcontrol hat hc =>
    obtain ⟨-, rfl, hscope⟩ := hempty hat.stack
    cases c with
    | normal => exact ⟨hscope, .inl hcontrol⟩
    | returned v => exact absurd rfl hc.1
  | fault hcontrol hworld hfits hstack hf => exact ⟨(hempty hstack).2.2, .inr ⟨_, hcontrol⟩⟩

/-- The world behind a statement at global scope.  A fault is reported. -/
def settled (m : Machine) : World :=
  match m.control with
  | .fault f => m.world.report f.report
  | _ => m.world

theorem Sound.settled (h : m.Sound R) : m.settled.Sound R := by
  have hworld := h.world
  unfold Machine.settled
  cases h with
  | fault hcontrol _ _ _ hf =>
    rw [hcontrol]
    exact hworld.report (Fault.possible_report hf)
  | eval hcontrol | exec hcontrol | value hcontrol | text hcontrol | done hcontrol =>
    rw [hcontrol]
    exact hworld

end Machine

namespace World

variable {R : Recorded} {host : Host} {w w' : World} {s : Stmt} {rest : List Stmt}

/-- A machine that is about to execute one statement at global scope. -/
def begin (w : World) (s : Stmt) : Machine := { w.idle with control := .exec s }

theorem Sound.begin (h : w.Sound R) (hs : s.Bound R .outside {}) : (w.begin s).Sound R := by
  have hfits : Fits w.Clean w.store (Context.scopes {}) globalScope := rfl
  exact .exec rfl h hfits (.nil rfl) hs

end World

end ClassScript
