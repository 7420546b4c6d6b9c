import Rowwise.Eval.Evaluate
import Rowwise.Proofs.Evaluation.Contract
import Rowwise.Proofs.Evaluation.Functions

/-!
# Rowwise.Proofs.Evaluation.Steps — the runs that nodes are evaluated by

To ask the host for the row or the time and to draw random numbers meets every usual contract (`Contract.Usual`).
-/

namespace Rowwise

open Run

variable {c : Context} {K : Contract}

theorem currentRow_meets : Meets K currentRow fun _ => True :=
  Meets.bind (P := fun _ => True) (Meets.world fun _ _ => trivial) fun _ _ => Meets.pure trivial

variable (hK : K.Usual)

include hK

theorem nextRandom_meets (stream : Nat) : Meets K (nextRandom stream) fun v => v.type = .double := by
  refine Meets.bind (P := fun _ => True) (Meets.note (hK.note rfl) trivial) fun _ _ => ?_
  refine Meets.bind (P := fun _ => True) (Meets.world fun _ _ => trivial) fun w _ => ?_
  exact Meets.bind (P := fun _ => True) (Meets.alter (hK.streams _) trivial) fun _ _ => Meets.pure rfl

theorem currentTime_meets : Meets K currentTime fun _ => True :=
  Meets.bind (P := fun _ => True) (Meets.note (hK.note rfl) trivial) fun _ _ =>
    Meets.bind (P := fun _ => True) (Meets.world fun _ _ => trivial) fun _ _ => Meets.pure trivial

end Rowwise
