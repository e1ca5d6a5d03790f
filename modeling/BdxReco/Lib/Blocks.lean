import Mathlib.Order.Basic
import Mathlib.Tactic.Basic

/-!
# `Lib.Blocks` — maximal blocks of positions where a predicate holds

A block of `P` in `0, …, n - 1` is a non-empty interval `a, …, b - 1` on which `P` holds and which cannot be
extended to either side. A scan that goes through the positions once knows at position `k` the blocks that have
ended before `k` (`ended_succ_iff`) and where the one at hand started (`Open`).
-/

namespace Blocks

variable {P : Nat → Prop} {n a b : Nat}

/-- `a, …, b - 1` is a maximal block of positions below `n` with `P`. -/
structure Block (P : Nat → Prop) (n a b : Nat) : Prop where
  lt : a < b
  le : b ≤ n
  holds : ∀ i, a ≤ i → i < b → P i
  left : a = 0 ∨ ¬ P (a - 1)
  right : b = n ∨ ¬ P b

/-- `P` holds from `a` to `n - 1`, and not just before `a`: a block that has not ended yet. -/
structure Open (P : Nat → Prop) (n a : Nat) : Prop where
  lt : a < n
  holds : ∀ i, a ≤ i → i < n → P i
  left : a = 0 ∨ ¬ P (a - 1)

theorem Open.block (h : Open P n a) : Block P n a n :=
  ⟨h.lt, Nat.le_refl n, h.holds, h.left, Or.inl rfl⟩

theorem Open.succ (h : Open P n a) (hn : P n) : Open P (n + 1) a where
  lt := Nat.lt_succ_of_lt h.lt
  holds i hai hi := by
    by_cases hik : i = n
    · rwa [hik]
    · exact h.holds i hai (by omega)
  left := h.left

theorem open_here (ha : P a) (hleft : a = 0 ∨ ¬ P (a - 1)) : Open P (a + 1) a where
  lt := by omega
  holds i hi hi' := by rwa [show i = a by omega]
  left := hleft

theorem Open.unique {a' : Nat} (h : Open P n a) (h' : Open P n a') : a = a' := by
  by_contra hne
  rcases Nat.lt_or_gt_of_ne hne with hlt | hlt
  · rcases h'.left with hz | hno
    · omega
    · exact hno (h.holds (a' - 1) (by omega) (by have := h'.lt; omega))
  · rcases h.left with hz | hno
    · omega
    · exact hno (h'.holds (a - 1) (by omega) (by have := h.lt; omega))

/-- Every position with `P` lies in a block that starts somewhere before it. -/
theorem exists_open {k : Nat} (hk : P k) : ∃ a, Open P (k + 1) a ∧ a ≤ k := by
  induction k with
  | zero => exact ⟨0, open_here hk (Or.inl rfl), Nat.le_refl 0⟩
  | succ k ih =>
      by_cases hprev : P k
      · obtain ⟨a, ha, hle⟩ := ih hprev
        exact ⟨a, ha.succ hk, by omega⟩
      · exact ⟨k + 1, open_here hk (Or.inr (by simpa using hprev)), Nat.le_refl _⟩

/-- A block that is open at `k` ends somewhere, at `n` at the latest. -/
theorem Open.exists_block {k : Nat} (h : Open P k a) (hk : k ≤ n) : ∃ b, Block P n a b ∧ k ≤ b := by
  induction hleft : n - k generalizing k with
  | zero =>
      have hkn : k = n := by omega
      subst hkn
      exact ⟨k, h.block, Nat.le_refl k⟩
  | succ left ih =>
      by_cases hnext : P k
      · obtain ⟨b, hb, hle⟩ := ih (h.succ hnext) (by omega) (by omega)
        exact ⟨b, hb, by omega⟩
      · exact ⟨k, ⟨h.lt, hk, h.holds, h.left, Or.inr hnext⟩, Nat.le_refl k⟩

/-- The blocks of the first `n` positions: those that have ended, and the one that is open. -/
theorem block_iff : Block P n a b ↔ (Block P n a b ∧ b < n) ∨ (b = n ∧ Open P n a) := by
  constructor
  · intro h
    by_cases hb : b = n
    · subst hb
      exact Or.inr ⟨rfl, h.lt, h.holds, h.left⟩
    · exact Or.inl ⟨h, by have := h.le; omega⟩
  · rintro (h | ⟨rfl, h⟩)
    · exact h.1
    · exact h.block

/-- A block has ended before `n + 1` if it has ended before `n`, or it was open and `n` ends it. -/
theorem ended_succ_iff : (Block P (n + 1) a b ∧ b < n + 1) ↔
    (Block P n a b ∧ b < n) ∨ (b = n ∧ Open P n a ∧ ¬ P n) := by
  constructor
  · rintro ⟨h, hlt⟩
    have hno : ¬ P b := h.right.resolve_left (by omega)
    by_cases hb : b = n
    · subst hb
      exact Or.inr ⟨rfl, ⟨h.lt, h.holds, h.left⟩, hno⟩
    · exact Or.inl ⟨⟨h.lt, by omega, h.holds, h.left, Or.inr hno⟩, by omega⟩
  · rintro (⟨h, hlt⟩ | ⟨rfl, h, hno⟩)
    · have hno : ¬ P b := h.right.resolve_left (by omega)
      exact ⟨⟨h.lt, by omega, h.holds, h.left, Or.inr hno⟩, by omega⟩
    · exact ⟨⟨h.lt, by omega, h.holds, h.left, Or.inr hno⟩, by omega⟩

/-- A block that has ended lies before the one that is open. -/
theorem Block.lt_open {a' : Nat} (h : Block P n a b) (hb : b < n) (h' : Open P n a') : a < a' := by
  by_contra hle
  have hno : ¬ P b := h.right.resolve_left (by omega)
  have hab := h.lt
  exact hno (h'.holds b (by omega) hb)

end Blocks
