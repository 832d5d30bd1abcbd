import ClassScript.Proofs.Evaluation.Flushing
import ClassScript.Proofs.Scoping.Relabeling

/-! # Programs in two parts

It makes no difference whether two programs are run one after the other or as one.  In the one case
the distances of the second program are known while the first one runs, in the other they are not.
-/
namespace ClassScript

theorem Stmt.ShapedAll.append {ss ts : List Stmt} (hss : Stmt.ShapedAll ss)
    (hts : Stmt.ShapedAll ts) : Stmt.ShapedAll (ss ++ ts) := by
  induction ss with
  | nil => exact hts
  | cons s ss ih => exact ⟨hss.1, ih hss.2⟩

theorem Stmt.BoundAll.left {R : Recorded} {fn : FunctionContext} {ctx : Context}
    {ss ts : List Stmt} (h : Stmt.BoundAll R fn ctx (ss ++ ts)) : Stmt.BoundAll R fn ctx ss := by
  induction ss generalizing ctx with
  | nil => trivial
  | cons s ss ih => exact ⟨h.1, ih h.2⟩

namespace Program

variable {program : Program}

end Program

namespace World

end World

namespace Session

variable {s : Session} {program p q : Program}

/-- A sink may well take notice of the flush between two runs: one that holds three characters until
it is flushed receives the last line end only if the two programs are run one after the other. -/
theorem run_at_once_withheld :
    let host : Host := ⟨fun _ => .ok ⟨0⟩, .holding 3⟩
    let first := Program.ofSource 0 "print \"a\";"
    let second := Program.ofSource first.2 "print \"b\";"
    let p := first.1.toOption.getD []
    let q := second.1.toOption.getD []
    let seen (w : World) : String × Bool := (w.output.text, w.log.hadRuntimeError)
    ((Session.initial.world.analyze (p ++ q)).1.runProgram host 40 (p ++ q)).map seen =
        some ("a\nb", true) ∧
      (((Session.initial.world.analyze p).1.runProgram host 40 p).bind fun w₁ =>
        (w₁.analyze q).1.runProgram host 40 q).map seen = some ("a\nb\n", false) := by
  decide +kernel

end Session

end ClassScript
