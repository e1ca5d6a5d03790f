import Mathlib.Algebra.Order.BigOperators.Group.List
import Mathlib.Algebra.Order.Field.Basic
import Mathlib.Tactic.Ring

/-!
# `Lib.WeightedMean` — the mean of a list with weights that are not negative

The mean is defined if some weight is positive (`total_pos_iff`), and is then neither above all values nor below all of
them.
-/

namespace WeightedMean

variable {α K : Type} [Field K] [LinearOrder K] [IsStrictOrderedRing K]

/-- The sum of the weights. -/
def total (w : α → K) (l : List α) : K := (l.map w).sum

/-- The sum of the values, with their weights. -/
def weighted (v w : α → K) (l : List α) : K := (l.map (fun a => v a * w a)).sum

variable {v w : α → K} {l : List α}

theorem total_nonneg (hw : ∀ a ∈ l, 0 ≤ w a) : 0 ≤ total w l := by
  refine List.sum_nonneg ?_
  intro x hx
  obtain ⟨a, ha, rfl⟩ := List.mem_map.mp hx
  exact hw a ha

theorem total_pos_iff (hw : ∀ a ∈ l, 0 ≤ w a) : 0 < total w l ↔ ∃ a ∈ l, 0 < w a := by
  induction l with
  | nil => simp [total]
  | cons a l ih =>
      rw [List.forall_mem_cons] at hw
      have htail := total_nonneg hw.2
      have hcons : total w (a :: l) = w a + total w l := by simp [total]
      rw [hcons]
      constructor
      · intro hpos
        rcases eq_or_lt_of_le hw.1 with hzero | ha
        · rw [← hzero, zero_add] at hpos
          obtain ⟨b, hb, hwb⟩ := (ih hw.2).mp hpos
          exact ⟨b, List.mem_cons_of_mem a hb, hwb⟩
        · exact ⟨a, List.mem_cons_self, ha⟩
      · rintro ⟨b, hb, hwb⟩
        rcases List.mem_cons.mp hb with rfl | hb
        · exact add_pos_of_pos_of_nonneg hwb htail
        · exact add_pos_of_nonneg_of_pos hw.1 ((ih hw.2).mpr ⟨b, hb, hwb⟩)

omit [LinearOrder K] [IsStrictOrderedRing K] in
/-- The distances from any point, weighted. -/
theorem total_distance (v w : α → K) (l : List α) (m : K) :
    total (fun a => (m - v a) * w a) l = m * total w l - weighted v w l := by
  unfold total weighted
  induction l with
  | nil => simp
  | cons a l ih =>
      rw [List.map_cons, List.map_cons, List.map_cons, List.sum_cons, List.sum_cons, List.sum_cons, ih]
      ring

omit [LinearOrder K] [IsStrictOrderedRing K] in
theorem weighted_neg (v w : α → K) (l : List α) : weighted (fun a => -v a) w l = -weighted v w l := by
  unfold weighted
  induction l with
  | nil => simp
  | cons a l ih =>
      rw [List.map_cons, List.map_cons, List.sum_cons, List.sum_cons, ih]
      ring

/-- **The mean is not above all values.** -/
theorem exists_mean_le (hw : ∀ a ∈ l, 0 ≤ w a) (hpos : 0 < total w l) :
    ∃ a ∈ l, weighted v w l / total w l ≤ v a := by
  by_contra hcon
  have habove : ∀ a ∈ l, v a < weighted v w l / total w l := by
    intro a ha
    exact not_le.mp (fun hle => hcon ⟨a, ha, hle⟩)
  -- the distances from the mean add up to 0, and one of them is positive
  have hzero : total (fun a => (weighted v w l / total w l - v a) * w a) l = 0 := by
    rw [total_distance, div_mul_cancel₀ _ (ne_of_gt hpos), sub_self]
  obtain ⟨a, ha, hwa⟩ := (total_pos_iff hw).mp hpos
  refine absurd hzero (ne_of_gt ((total_pos_iff ?_).mpr ⟨a, ha, ?_⟩))
  · intro b hb
    exact mul_nonneg (sub_nonneg.mpr (habove b hb).le) (hw b hb)
  · exact mul_pos (sub_pos.mpr (habove a ha)) hwa

/-- **The mean is not below all values.** -/
theorem exists_le_mean (hw : ∀ a ∈ l, 0 ≤ w a) (hpos : 0 < total w l) :
    ∃ a ∈ l, v a ≤ weighted v w l / total w l := by
  obtain ⟨a, ha, hle⟩ := exists_mean_le (v := fun a => -v a) hw hpos
  rw [weighted_neg, neg_div] at hle
  exact ⟨a, ha, neg_le_neg_iff.mp hle⟩

end WeightedMean
