import Mathlib.Tactic.Basic

/-!
# `Lib.Mem` — memories and the spans of cells an operation touches

A memory maps cell numbers to values and has no bounds of its own. Operations record the spans they read and
write, and bounds are stated of the record: `s.Below n` says that `s` touches no cell from `n` on.
-/

/-- A memory with cells of type `α`. -/
abbrev Mem (α : Type) : Type := Nat → α

/-- The cells `start, …, start + count - 1`. -/
structure Span where
  start : Nat
  count : Nat
  deriving DecidableEq, Repr

namespace Span

/-- The cell `k` is in the span. -/
def Covers (s : Span) (k : Nat) : Prop := s.start ≤ k ∧ k < s.start + s.count

instance (s : Span) (k : Nat) : Decidable (s.Covers k) := inferInstanceAs (Decidable (_ ∧ _))

/-- The span touches only cells below `n`. -/
def Below (s : Span) (n : Nat) : Prop := ∀ k, s.Covers k → k < n

theorem below_of_le {s : Span} {n : Nat} (h : s.start + s.count ≤ n) : s.Below n := by
  intro k hk
  have hlt := hk.2
  omega

/-- The last cell of a span that is not empty is below the bound. -/
theorem Below.last_lt {s : Span} {n : Nat} (h : s.Below n) (hpos : 0 < s.count) : s.start + s.count ≤ n := by
  have hlast := h (s.start + (s.count - 1)) ⟨by omega, by omega⟩
  omega

end Span

namespace Mem

variable {α : Type}

/-- Write the cells of a span; `f k` is the value for the cell `k`. -/
def fill (m : Mem α) (s : Span) (f : Nat → α) : Mem α := fun k => if s.Covers k then f k else m k

theorem fill_covers {m : Mem α} {s : Span} {f : Nat → α} {k : Nat} (h : s.Covers k) : m.fill s f k = f k :=
  if_pos h

theorem fill_not_covers {m : Mem α} {s : Span} {f : Nat → α} {k : Nat} (h : ¬ s.Covers k) :
    m.fill s f k = m k :=
  if_neg h

end Mem
