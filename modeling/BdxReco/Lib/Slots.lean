import Mathlib.Data.List.Basic
import Mathlib.Logic.Function.Basic

/-!
# `Lib.Slots` — machines that keep one value for each slot

Every operation belongs to a slot. It reads the value of this slot, puts something out and leaves a new value there;
the other slots are not touched. So what comes out at one slot is what comes out when only the operations of this slot
are run (`outputs_at`): two runs with the same operations there cannot be told apart.
-/

namespace Slots

variable {κ σ ι ρ : Type} [DecidableEq κ]

/-- What an operation leaves in the slots. -/
def step (slot : ι → κ) (f : σ → ι → ρ × σ) (mem : κ → σ) (op : ι) : κ → σ :=
  Function.update mem (slot op) (f (mem (slot op)) op).2

/-- What a run puts out, each output with its operation. -/
def outputs (slot : ι → κ) (f : σ → ι → ρ × σ) (mem : κ → σ) : List ι → List (ι × ρ)
  | [] => []
  | op :: ops => (op, (f (mem (slot op)) op).1) :: outputs slot f (step slot f mem op) ops

variable (slot : ι → κ) (f : σ → ι → ρ × σ)

/-- Every operation puts something out, in order. -/
theorem map_fst_outputs (mem : κ → σ) (ops : List ι) : (outputs slot f mem ops).map Prod.fst = ops := by
  induction ops generalizing mem with
  | nil => rfl
  | cons op ops ih =>
      unfold outputs
      rw [List.map_cons, ih]

/-- An operation of another slot leaves the slot alone. -/
theorem step_of_ne {k : κ} {op : ι} (h : slot op ≠ k) (mem : κ → σ) : step slot f mem op k = mem k :=
  Function.update_of_ne (Ne.symm h) _ _

theorem step_self {mem mem' : κ → σ} {op : ι} (h : mem (slot op) = mem' (slot op)) :
    step slot f mem op (slot op) = step slot f mem' op (slot op) := by
  unfold step
  rw [Function.update_self, Function.update_self, h]

/-- **What comes out at one slot** depends on the operations of this slot alone. -/
theorem outputs_at (k : κ) (ops : List ι) (mem mem' : κ → σ) (h : mem k = mem' k) :
    (outputs slot f mem ops).filter (fun p => slot p.1 = k)
      = outputs slot f mem' (ops.filter (fun op => slot op = k)) := by
  induction ops generalizing mem mem' with
  | nil => rfl
  | cons op ops ih =>
      by_cases hop : slot op = k
      · subst hop
        have htail := ih _ _ (step_self slot f h)
        simp only [outputs, List.filter_cons, decide_true, if_true, htail, h]
      · have hstep : step slot f mem op k = mem' k := by rw [step_of_ne slot f hop, h]
        simp only [outputs, List.filter_cons, hop, decide_false, Bool.false_eq_true, if_false]
        exact ih _ _ hstep

end Slots
