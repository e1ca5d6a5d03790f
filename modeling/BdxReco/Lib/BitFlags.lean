import Mathlib.Data.List.Basic

/-!
# `Lib.BitFlags` — words as sets of flags

Bit `k` of a word `x : BitVec w` is `x.getLsbD k`. The C idioms for it are tested with a mask, `x & (1 << k)`, or by
shifting down, `(x >> k) & 1`; words are put together bit by bit with `|`.
-/

namespace BitFlags

variable {w : Nat}

theorem getLsbD_mask {k : Nat} (hk : k < w) (i : Nat) : (1#w <<< k).getLsbD i = decide (i = k) := by
  rw [← BitVec.twoPow_eq, BitVec.getLsbD_twoPow]
  by_cases hik : k = i
  · simp [hik ▸ hk, hik]
  · simp [hik, Ne.symm hik]

/-- `(x & (1 << k)) != 0`. -/
theorem and_mask_ne_zero {x : BitVec w} {k : Nat} (hk : k < w) :
    x &&& (1#w <<< k) ≠ 0#w ↔ x.getLsbD k = true := by
  constructor
  · intro hne
    by_contra hbit
    apply hne
    apply BitVec.eq_of_getLsbD_eq
    intro i _
    rw [BitVec.getLsbD_and, getLsbD_mask hk, BitVec.getLsbD_zero]
    by_cases hik : i = k
    · simpa [hik] using hbit
    · simp [hik]
  · intro hbit hzero
    have hk' := congrArg (fun y => y.getLsbD k) hzero
    simp [getLsbD_mask hk, hbit] at hk'

/-- `((x >> k) & 1) != 0`. -/
theorem shift_and_one_ne_zero {x : BitVec w} {k : Nat} (hw : 0 < w) :
    (x >>> k) &&& 1#w ≠ 0#w ↔ x.getLsbD k = true := by
  have hmask : 1#w = 1#w <<< 0 := by simp
  rw [hmask, and_mask_ne_zero hw, BitVec.getLsbD_ushiftRight, Nat.add_zero]

/-- `x`, with the bits of the list added whose flag is set. -/
def ofFlags (flags : Fin w → Bool) (l : List (Fin w)) (x : BitVec w) : BitVec w :=
  l.foldl (fun x k => if flags k then x ||| (1#w <<< k.val) else x) x

theorem getLsbD_ofFlags (flags : Fin w → Bool) (l : List (Fin w)) (x : BitVec w) (i : Fin w) :
    (ofFlags flags l x).getLsbD i = true ↔ x.getLsbD i = true ∨ (i ∈ l ∧ flags i = true) := by
  induction l generalizing x with
  | nil => simp [ofFlags]
  | cons k l ih =>
      have htail : ofFlags flags (k :: l) x = ofFlags flags l (if flags k then x ||| (1#w <<< k.val) else x) := rfl
      rw [htail, ih]
      cases hflag : flags k with
      | false =>
          by_cases hik : i = k
          · simp [hik, hflag]
          · simp [hik]
      | true =>
          rw [if_pos rfl, BitVec.getLsbD_or, getLsbD_mask k.isLt]
          by_cases hik : i = k
          · simp [hik, hflag]
          · have hval : i.val ≠ k.val := fun h => hik (Fin.ext h)
            simp [hik, hval]

/-- **Bit by bit**, a union of words has the bits of its members. -/
theorem getLsbD_foldl_or (l : List (BitVec w)) (x : BitVec w) (i : Nat) :
    (l.foldl (· ||| ·) x).getLsbD i = (x.getLsbD i || l.any (fun y => y.getLsbD i)) := by
  induction l generalizing x with
  | nil => simp
  | cons y l ih => simp [ih, Bool.or_assoc]

end BitFlags
