import Mathlib.Algebra.BigOperators.Group.List.Lemmas
import Mathlib.Data.Int.Log
import Mathlib.Data.List.Induction
import Mathlib.Data.Nat.Sqrt
import Mathlib.Data.Rat.Floor
import Mathlib.Tactic.Linarith
import Mathlib.Tactic.Ring

/-!
# `Lib.Binary64` — arithmetic in double precision

A double is a rational number here, and an operation on doubles is the operation on rational numbers followed by
`round`, to the nearest number with 53 binary digits and to the even one of two that are as near. Small numbers lose
digits (the unit in the last place is `2 ^ (-1074)` or more). Numbers so large that a double is infinite are left out.

`round` is monotone (`round_mono`), it does nothing to integers that fit (`round_intCast`), multiples of a double stay
apart (`mul_lt_mul_natCast`), and a part of a whole stays one (`mul_div_le_one`). A small number is lost in the sum with
an integer (`add_natCast_eq_iff`), and a sum depends on its order, unless no partial sum is rounded (`total_perm`).
-/

namespace Binary64

/-- The exponent of the unit in the last place. -/
def ulpExp (x : ℚ) : Int := max (Int.log 2 |x| - 52) (-1074)

/-- The nearest integer, the even one of two. -/
def nearest (x : ℚ) : Int :=
  if x - ⌊x⌋ < 1 / 2 then ⌊x⌋
  else if 1 / 2 < x - ⌊x⌋ then ⌊x⌋ + 1
  else if ⌊x⌋ % 2 = 0 then ⌊x⌋ else ⌊x⌋ + 1

/-- The nearest double. -/
def round (x : ℚ) : ℚ := nearest (x / 2 ^ ulpExp x) * 2 ^ ulpExp x

def add (x y : ℚ) : ℚ := round (x + y)

def sub (x y : ℚ) : ℚ := round (x - y)

def mul (x y : ℚ) : ℚ := round (x * y)

def div (x y : ℚ) : ℚ := round (x / y)

/-- The integer nearest to the root. -/
def nearestRoot (x : ℚ) : Nat :=
  let m := Nat.sqrt ⌊x⌋.toNat
  if x < (m + 1 / 2) ^ 2 then m
  else if (m + 1 / 2) ^ 2 < x then m + 1
  else if m % 2 = 0 then m else m + 1

/-- The exponent of the unit in the last place of the root. -/
def rootExp (x : ℚ) : Int := max (Int.log 2 x / 2 - 52) (-1074)

/-- The square root, which is not a number for a negative argument. -/
def sqrt (x : ℚ) : Option ℚ :=
  if x < 0 then none else some (nearestRoot (x / 4 ^ rootExp x) * 2 ^ rootExp x)

/-- A signed integer of `width` bits from a double. A number that does not fit has no value in the language; the machine
    makes the smallest integer of it. -/
def toSigned (width : Nat) (x : ℚ) : Int :=
  let n := if 0 ≤ x then ⌊x⌋ else ⌈x⌉
  if -2 ^ (width - 1) ≤ n ∧ n < 2 ^ (width - 1) then n else -2 ^ (width - 1)

/-- An `int` from a double. -/
def toInt (x : ℚ) : Int := toSigned 32 x

/-- A `long` from a double. -/
def toLong (x : ℚ) : Int := toSigned 64 x

/-- A sum, from the first number to the last. -/
def total (xs : List ℚ) : ℚ := xs.foldl add 0

/-- A number that is a double. -/
def IsDouble (x : ℚ) : Prop := round x = x

instance (x : ℚ) : Decidable (IsDouble x) := inferInstanceAs (Decidable (_ = _))

/-! ## The nearest integer -/

section Nearest

variable {x y : ℚ}

@[simp] theorem nearest_intCast (n : Int) : nearest (n : ℚ) = n := by
  unfold nearest
  simp

theorem nearest_cases (x : ℚ) :
    (nearest x = ⌊x⌋ ∧ x - ⌊x⌋ ≤ 1 / 2) ∨ (nearest x = ⌊x⌋ + 1 ∧ 1 / 2 ≤ x - ⌊x⌋) := by
  unfold nearest
  split_ifs with hlow hhigh heven
  · exact Or.inl ⟨rfl, hlow.le⟩
  · exact Or.inr ⟨rfl, hhigh.le⟩
  · exact Or.inl ⟨rfl, not_lt.mp hhigh⟩
  · exact Or.inr ⟨rfl, not_lt.mp hlow⟩

theorem abs_nearest_sub_le (x : ℚ) : |(nearest x : ℚ) - x| ≤ 1 / 2 := by
  have hfloor := Int.floor_le x
  have hlt := Int.lt_floor_add_one x
  rw [abs_le]
  rcases nearest_cases x with ⟨heq, hfrac⟩ | ⟨heq, hfrac⟩
  · rw [heq]
    constructor <;> linarith
  · rw [heq]
    push_cast
    constructor <;> linarith

theorem nearest_mono (h : x ≤ y) : nearest x ≤ nearest y := by
  rcases lt_or_eq_of_le (Int.floor_mono h) with hlt | heq
  · -- another integer lies between them
    have hx : nearest x ≤ ⌊x⌋ + 1 := by
      rcases nearest_cases x with ⟨hx, _⟩ | ⟨hx, _⟩ <;> omega
    have hy : ⌊y⌋ ≤ nearest y := by
      rcases nearest_cases y with ⟨hy, _⟩ | ⟨hy, _⟩ <;> omega
    omega
  · unfold nearest
    rw [heq]
    split_ifs <;> first | omega | (exfalso; linarith)

theorem floor_neg_of_not_int (h : (⌊x⌋ : ℚ) ≠ x) : ⌊-x⌋ = -⌊x⌋ - 1 := by
  have hlt : (⌊x⌋ : ℚ) < x := lt_of_le_of_ne (Int.floor_le x) h
  have hlt' := Int.lt_floor_add_one x
  rw [Int.floor_eq_iff]
  push_cast
  constructor <;> linarith

theorem nearest_neg (x : ℚ) : nearest (-x) = -nearest x := by
  by_cases hint : (⌊x⌋ : ℚ) = x
  · rw [← hint, nearest_intCast, ← Int.cast_neg, nearest_intCast]
  · -- the fraction of `-x` is what is missing to 1
    unfold nearest
    rw [floor_neg_of_not_int hint]
    push_cast
    split_ifs <;> first | omega | (exfalso; linarith)

end Nearest

/-! ## The nearest double -/

section Round

variable {x y : ℚ} {e n : Int}

theorem two_zpow_pos (e : Int) : (0 : ℚ) < 2 ^ e := zpow_pos two_pos e

@[simp] theorem round_zero : round 0 = 0 := by
  have hzero : nearest 0 = 0 := by simpa using nearest_intCast 0
  unfold round
  rw [zero_div, hzero, Int.cast_zero, zero_mul]

theorem round_neg (x : ℚ) : round (-x) = -round x := by
  have hexp : ulpExp (-x) = ulpExp x := by
    unfold ulpExp
    rw [abs_neg]
  unfold round
  rw [hexp, neg_div, nearest_neg, Int.cast_neg, neg_mul]

/-- A multiple of the unit in the last place is a double. -/
theorem round_mul_zpow (h : ulpExp x ≤ e) (hx : x = n * 2 ^ e) : round x = x := by
  have hne := (two_zpow_pos (ulpExp x)).ne'
  obtain ⟨k, hk⟩ : ∃ k : Nat, e = k + ulpExp x := ⟨(e - ulpExp x).toNat, by omega⟩
  have hint : x / 2 ^ ulpExp x = ((n * 2 ^ k : Int) : ℚ) := by
    rw [div_eq_iff hne]
    conv_lhs => rw [hx, hk, zpow_add₀ two_ne_zero, zpow_natCast]
    push_cast
    ring
  unfold round
  rw [hint, nearest_intCast, ← hint, div_mul_cancel₀ _ hne]

/-- Rounding does not pass a multiple of the unit in the last place. -/
theorem round_le_mul_zpow (h : x ≤ n * 2 ^ ulpExp x) : round x ≤ n * 2 ^ ulpExp x := by
  have hpos := two_zpow_pos (ulpExp x)
  have hle := nearest_mono ((div_le_iff₀ hpos).mpr h)
  rw [nearest_intCast] at hle
  exact mul_le_mul_of_nonneg_right (by exact_mod_cast hle) hpos.le

theorem mul_zpow_le_round (h : n * 2 ^ ulpExp x ≤ x) : n * 2 ^ ulpExp x ≤ round x := by
  have hpos := two_zpow_pos (ulpExp x)
  have hle := nearest_mono ((le_div_iff₀ hpos).mpr h)
  rw [nearest_intCast] at hle
  exact mul_le_mul_of_nonneg_right (by exact_mod_cast hle) hpos.le

/-- What is rounded off is half a unit in the last place or less. -/
theorem abs_round_sub_le (x : ℚ) : |round x - x| ≤ 2 ^ ulpExp x / 2 := by
  have hpos := two_zpow_pos (ulpExp x)
  have herror := abs_nearest_sub_le (x / 2 ^ ulpExp x)
  have hfactor : round x - x = (nearest (x / 2 ^ ulpExp x) - x / 2 ^ ulpExp x) * 2 ^ ulpExp x := by
    unfold round
    rw [sub_mul, div_mul_cancel₀ _ hpos.ne']
  rw [hfactor, abs_mul, abs_of_pos hpos]
  linarith [mul_le_mul_of_nonneg_right herror hpos.le]

theorem neg_le_ulpExp (x : ℚ) : -1074 ≤ ulpExp x := le_max_right _ _

theorem ulpExp_le_iff (hx : 0 < x) (he : -1074 ≤ e) : ulpExp x ≤ e ↔ x < 2 ^ (e + 53) := by
  unfold ulpExp
  have hlog := Int.lt_zpow_iff_log_lt (b := 2) (by norm_num) (x := e + 53) hx
  rw [Nat.cast_ofNat] at hlog
  rw [abs_of_pos hx, hlog]
  omega

theorem ulpExp_mono (hx : 0 < x) (h : x ≤ y) : ulpExp x ≤ ulpExp y :=
  (ulpExp_le_iff hx (neg_le_ulpExp y)).mpr
    (lt_of_le_of_lt h ((ulpExp_le_iff (lt_of_lt_of_le hx h) (neg_le_ulpExp y)).mp (le_refl _)))

/-- Above the smallest exponent there are 53 digits. -/
theorem zpow_le_of_lt_ulpExp (hx : 0 < x) (h : -1074 < ulpExp x) : 2 ^ (ulpExp x + 52) ≤ x := by
  by_contra hlt
  have hle := (ulpExp_le_iff hx (e := ulpExp x - 1) (by omega)).mpr (by
    rw [show ulpExp x - 1 + 53 = ulpExp x + 52 by omega]
    exact not_le.mp hlt)
  omega

theorem round_mono_of_pos (hx : 0 < x) (h : x ≤ y) : round x ≤ round y := by
  have hy : 0 < y := lt_of_lt_of_le hx h
  rcases lt_or_eq_of_le (ulpExp_mono hx h) with hlt | heq
  · -- the power of two where the digits of `y` begin is a multiple of both units
    have hbegin := zpow_le_of_lt_ulpExp hy (lt_of_le_of_lt (neg_le_ulpExp x) hlt)
    have hbefore : x < 2 ^ (ulpExp y + 52) := by
      have hx' := (ulpExp_le_iff hx (e := ulpExp y - 1) (by have := neg_le_ulpExp x; omega)).mp (by omega)
      rwa [show ulpExp y - 1 + 53 = ulpExp y + 52 by omega] at hx'
    have hmultiple : ∀ z : ℚ, ulpExp z ≤ ulpExp y →
        (2 : ℚ) ^ (ulpExp y + 52) = ((2 ^ (ulpExp y + 52 - ulpExp z).toNat : Int) : ℚ) * 2 ^ ulpExp z := by
      intro z hz
      push_cast
      rw [← zpow_natCast, ← zpow_add₀ two_ne_zero]
      congr 1
      omega
    calc round x ≤ 2 ^ (ulpExp y + 52) := by
          rw [hmultiple x hlt.le]
          apply round_le_mul_zpow
          rw [← hmultiple x hlt.le]
          exact hbefore.le
      _ ≤ round y := by
          rw [hmultiple y (le_refl _)]
          apply mul_zpow_le_round
          rw [← hmultiple y (le_refl _)]
          exact hbegin
  · have hpos := two_zpow_pos (ulpExp y)
    unfold round
    rw [heq]
    have hle := nearest_mono (div_le_div_of_nonneg_right h hpos.le)
    exact mul_le_mul_of_nonneg_right (by exact_mod_cast hle) hpos.le

theorem round_nonneg (h : 0 ≤ x) : 0 ≤ round x := by
  have hpos := two_zpow_pos (ulpExp x)
  have hle := mul_zpow_le_round (x := x) (n := 0) (by simpa using h)
  simpa using hle

/-- **Rounding is monotone.** -/
theorem round_mono (h : x ≤ y) : round x ≤ round y := by
  rcases lt_or_ge 0 x with hx | hx
  · exact round_mono_of_pos hx h
  · rcases lt_or_ge y 0 with hy | hy
    · -- both are negative
      have hneg := round_mono_of_pos (neg_pos.mpr hy) (neg_le_neg h)
      rw [round_neg, round_neg] at hneg
      exact neg_le_neg_iff.mp hneg
    · have hx' := round_nonneg (neg_nonneg.mpr hx)
      rw [round_neg] at hx'
      linarith [round_nonneg hy]

/-- **Numbers with 53 digits or less are doubles.** -/
theorem isDouble_mul_zpow (hn : |n| ≤ 2 ^ 53) (he : -1074 ≤ e) : IsDouble (n * 2 ^ e) := by
  have hpow := two_zpow_pos e
  rcases eq_or_ne n 0 with rfl | hne
  · simp [IsDouble]
  · have habs : (0 : ℚ) < |(n : ℚ) * 2 ^ e| := abs_pos.mpr (mul_ne_zero (by exact_mod_cast hne) hpow.ne')
    have hsize : |(n : ℚ) * 2 ^ e| = |(n : ℚ)| * 2 ^ e := by rw [abs_mul, abs_of_pos hpow]
    have hexp : ulpExp |(n : ℚ) * 2 ^ e| = ulpExp (n * 2 ^ e) := by
      unfold ulpExp
      rw [abs_abs]
    rcases lt_or_eq_of_le hn with hlt | heq
    · refine round_mul_zpow (e := e) (n := n) ?_ rfl
      rw [← hexp, ulpExp_le_iff habs he, hsize, zpow_add₀ two_ne_zero, mul_comm]
      exact mul_lt_mul_of_pos_left (by exact_mod_cast hlt) hpow
    · -- the first integer with 54 digits, the last of which is 0
      have hulp : ulpExp ((n : ℚ) * 2 ^ e) ≤ e + 1 := by
        have hn' : |(n : ℚ)| = 2 ^ 53 := by exact_mod_cast heq
        rw [← hexp, ulpExp_le_iff habs (by omega), hsize, hn', mul_comm, ← zpow_natCast, ← zpow_add₀ two_ne_zero]
        exact zpow_lt_zpow_right₀ one_lt_two (by omega)
      have hdouble : n = 2 ^ 52 * 2 ∨ n = -2 ^ 52 * 2 := by
        rcases abs_choice n with habs' | habs' <;> omega
      rcases hdouble with rfl | rfl
      · exact round_mul_zpow (n := 2 ^ 52) hulp (by rw [zpow_add_one₀ two_ne_zero]; push_cast; ring)
      · exact round_mul_zpow (n := -2 ^ 52) hulp (by rw [zpow_add_one₀ two_ne_zero]; push_cast; ring)

theorem round_intCast (hn : |n| ≤ 2 ^ 53) : round (n : ℚ) = n := by
  have hdouble := isDouble_mul_zpow (e := 0) hn (by omega)
  rwa [zpow_zero, mul_one] at hdouble

theorem round_natCast {n : Nat} (hn : n ≤ 2 ^ 53) : round (n : ℚ) = n := by
  have hround := round_intCast (n := n) (by rw [abs_of_nonneg (by omega)]; exact_mod_cast hn)
  exact_mod_cast hround

/-- **The results of the operations are doubles.** -/
theorem isDouble_round (x : ℚ) : IsDouble (round x) := by
  rcases eq_or_ne x 0 with rfl | hne
  · simp [IsDouble]
  · have hpos := two_zpow_pos (ulpExp x)
    have habs : ulpExp |x| = ulpExp x := by
      unfold ulpExp
      rw [abs_abs]
    have hlt := (ulpExp_le_iff (abs_pos.mpr hne) (neg_le_ulpExp x)).mp habs.le
    rw [zpow_add₀ two_ne_zero, abs_lt] at hlt
    refine isDouble_mul_zpow (abs_le.mpr ⟨?_, ?_⟩) (neg_le_ulpExp x)
    · have hle := nearest_mono (x := ((-2 ^ 53 : Int) : ℚ)) (y := x / 2 ^ ulpExp x) (by
        rw [le_div_iff₀ hpos]
        push_cast
        linarith [hlt.1])
      rw [nearest_intCast] at hle
      omega
    · have hle := nearest_mono (x := x / 2 ^ ulpExp x) (y := ((2 ^ 53 : Int) : ℚ)) (by
        rw [div_le_iff₀ hpos]
        push_cast
        linarith [hlt.2])
      rw [nearest_intCast] at hle
      exact hle

end Round

/-! ## Multiples of a double -/

section Multiples

variable {x : ℚ} {m n : Nat}

/-- A double is a multiple of the smallest unit. -/
theorem IsDouble.multiple (hx : IsDouble x) : ∃ k : Int, x = k * 2 ^ (-1074 : Int) := by
  refine ⟨nearest (x / 2 ^ ulpExp x) * 2 ^ (ulpExp x + 1074).toNat, ?_⟩
  have hle := neg_le_ulpExp x
  have hsplit : (2 : ℚ) ^ ulpExp x = 2 ^ (ulpExp x + 1074).toNat * 2 ^ (-1074 : Int) := by
    rw [← zpow_natCast, ← zpow_add₀ two_ne_zero]
    congr 1
    omega
  calc x = nearest (x / 2 ^ ulpExp x) * 2 ^ ulpExp x := hx.symm
    _ = nearest (x / 2 ^ ulpExp x) * (2 ^ (ulpExp x + 1074).toNat * 2 ^ (-1074 : Int)) := by rw [← hsplit]
    _ = _ := by
      rw [← mul_assoc, Int.cast_mul, Int.cast_pow, Int.cast_ofNat]

/-- **Different multiples of a double have different products.** -/
theorem mul_lt_mul_natCast (hdouble : IsDouble x) (hx : 0 < x) (hmn : m < n) (hn : n ≤ 2 ^ 51) :
    mul x m < mul x n := by
  have hmn' : (m : ℚ) + 1 ≤ n := by exact_mod_cast hmn
  have hm : (0 : ℚ) ≤ m := Nat.cast_nonneg m
  have hn' : (0 : ℚ) < n := by linarith
  have hxn : 0 < x * n := mul_pos hx hn'
  have hlt : x * m < x * n := mul_lt_mul_of_pos_left (by linarith) hx
  rcases lt_or_eq_of_le (neg_le_ulpExp (x * n)) with hulp | hulp
  · -- the products are more than a unit in the last place apart
    have hbegin := zpow_le_of_lt_ulpExp hxn hulp
    have hgap : (2 : ℚ) ^ ulpExp (x * n) < x := by
      have hpos := two_zpow_pos (ulpExp (x * n))
      rw [zpow_add₀ two_ne_zero] at hbegin
      have hsize : (n : ℚ) ≤ 2 ^ 51 := by exact_mod_cast hn
      by_contra hnot
      have hle : x * n ≤ 2 ^ ulpExp (x * n) * 2 ^ 51 :=
        mul_le_mul (not_lt.mp hnot) hsize hn'.le hpos.le
      norm_num at hbegin hle
      linarith
    have hsmall : |round (x * m) - x * m| ≤ 2 ^ ulpExp (x * n) / 2 := by
      rcases eq_or_lt_of_le hm with hzero | hpos
      · rw [← hzero, mul_zero, round_zero, sub_zero, abs_zero]
        exact (half_pos (two_zpow_pos _)).le
      · have hexp := ulpExp_mono (mul_pos hx hpos) hlt.le
        have hpow : (2 : ℚ) ^ ulpExp (x * m) ≤ 2 ^ ulpExp (x * n) := zpow_le_zpow_right₀ (by norm_num) hexp
        linarith [abs_round_sub_le (x * m)]
    have hlarge := abs_round_sub_le (x * n)
    rw [abs_le] at hsmall hlarge
    have hdist : x * m + x ≤ x * n := by
      rw [← mul_add_one]
      exact mul_le_mul_of_nonneg_left hmn' hx.le
    show round (x * m) < round (x * n)
    linarith [hsmall.2, hlarge.1]
  · -- both are multiples of the smallest unit
    obtain ⟨k, hk⟩ := hdouble.multiple
    have hexact : ∀ l : Nat, ulpExp (x * l) ≤ -1074 → round (x * l) = x * l := by
      intro l hl
      refine round_mul_zpow (n := k * l) hl ?_
      conv_lhs => rw [hk]
      rw [mul_right_comm, Int.cast_mul, Int.cast_natCast]
    show round (x * m) < round (x * n)
    rw [hexact n hulp.symm.le]
    rcases eq_or_lt_of_le hm with hzero | hpos
    · rw [← hzero]
      simpa using hxn
    · rw [hexact m (by rw [hulp]; exact ulpExp_mono (mul_pos hx hpos) hlt.le)]
      exact hlt

end Multiples

/-! ## Differences and parts -/

section Exact

variable {x y : ℚ}

/-- Different doubles have a difference. -/
theorem IsDouble.zero_lt_sub (hx : IsDouble x) (hy : IsDouble y) (h : x < y) : 0 < sub y x := by
  obtain ⟨m, hm⟩ := hx.multiple
  obtain ⟨n, hn⟩ := hy.multiple
  have hunit := two_zpow_pos (-1074)
  have hmn : m + 1 ≤ n := by
    have hlt : (m : ℚ) < n := by
      rw [hm, hn] at h
      exact lt_of_mul_lt_mul_right h hunit.le
    exact_mod_cast hlt
  have hdiff : (2 : ℚ) ^ (-1074 : Int) ≤ y - x := by
    rw [hm, hn, ← sub_mul]
    have hone : (1 : ℚ) ≤ (n : ℚ) - m := by
      have hcast : (m : ℚ) + 1 ≤ n := by exact_mod_cast hmn
      linarith
    exact le_mul_of_one_le_left hunit.le hone
  have hsmallest : IsDouble ((2 : ℚ) ^ (-1074 : Int)) := by
    have hdouble := isDouble_mul_zpow (n := 1) (e := -1074) (by norm_num) (le_refl _)
    rwa [Int.cast_one, one_mul] at hdouble
  calc (0 : ℚ) < 2 ^ (-1074 : Int) := hunit
    _ = round (2 ^ (-1074 : Int)) := hsmallest.symm
    _ ≤ sub y x := round_mono hdiff

theorem IsDouble.sub_ne_zero_iff (hx : IsDouble x) (hy : IsDouble y) : sub x y ≠ 0 ↔ x ≠ y := by
  constructor
  · rintro hne rfl
    apply hne
    unfold sub
    rw [sub_self, round_zero]
  · intro hne
    rcases lt_or_gt_of_ne hne with hlt | hgt
    · have hpos := hx.zero_lt_sub hy hlt
      unfold sub at hpos ⊢
      rw [← neg_sub, round_neg]
      exact neg_ne_zero.mpr hpos.ne'
    · exact (hy.zero_lt_sub hx hgt).ne'

/-- Twice a double, and twice that again. -/
theorem IsDouble.mul_two_pow (hx : IsDouble x) (k : Nat) : IsDouble (x * 2 ^ k) := by
  rcases eq_or_ne x 0 with rfl | hne
  · simp [IsDouble]
  · have habs : ulpExp (x * 2 ^ k) ≤ ulpExp x + k := by
      have hpos : 0 < |x| := abs_pos.mpr hne
      have hlt := (ulpExp_le_iff hpos (neg_le_ulpExp x)).mp (by unfold ulpExp; rw [abs_abs])
      have hexp : ulpExp |x * 2 ^ k| = ulpExp (x * 2 ^ k) := by
        unfold ulpExp
        rw [abs_abs]
      have hle := neg_le_ulpExp x
      rw [← hexp, ulpExp_le_iff (abs_pos.mpr (mul_ne_zero hne (by positivity))) (by omega), abs_mul,
        abs_of_pos (by positivity : (0 : ℚ) < 2 ^ k), show ulpExp x + k + 53 = ulpExp x + 53 + k by omega,
        zpow_add₀ two_ne_zero, zpow_natCast]
      exact mul_lt_mul_of_pos_right hlt (by positivity)
    refine round_mul_zpow (n := nearest (x / 2 ^ ulpExp x)) habs ?_
    rw [zpow_add₀ two_ne_zero, zpow_natCast, ← mul_assoc]
    congr 1
    exact hx.symm

theorem isDouble_two_pow (k : Nat) : IsDouble (2 ^ k) := by
  have hone : IsDouble 1 := by
    have hround := round_natCast (n := 1) (by norm_num)
    rwa [Nat.cast_one] at hround
  have hpow := hone.mul_two_pow k
  rwa [one_mul] at hpow

theorem abs_round_le (hy : IsDouble y) (h : |x| ≤ y) : |round x| ≤ y := by
  rw [abs_le] at h ⊢
  have hlow := round_mono h.1
  have hhigh := round_mono h.2
  rw [round_neg] at hlow
  rw [IsDouble] at hy
  rw [hy] at hlow hhigh
  exact ⟨hlow, hhigh⟩

/-- An integer less. -/
theorem IsDouble.sub_natCast {n : Nat} (hx : IsDouble x) (hlt : x < 2 ^ 53) (hn : (n : ℚ) < x) : IsDouble (x - n) := by
  have hpos : 0 < x := lt_of_le_of_lt (Nat.cast_nonneg n) hn
  have hexp : ulpExp x ≤ 0 := (ulpExp_le_iff hpos (by omega)).mpr (by
    rw [zero_add]
    exact_mod_cast hlt)
  obtain ⟨k, hk⟩ : ∃ k : Nat, (k : Int) = -ulpExp x := ⟨(-ulpExp x).toNat, by omega⟩
  have hpow : (2 : ℚ) ^ k * 2 ^ ulpExp x = 1 := by
    rw [← zpow_natCast, ← zpow_add₀ two_ne_zero, hk, neg_add_cancel, zpow_zero]
  have hdiff : 0 < x - n := by linarith
  have hle : x - n ≤ x := by
    have hnonneg : (0 : ℚ) ≤ n := Nat.cast_nonneg n
    linarith
  refine round_mul_zpow (n := nearest (x / 2 ^ ulpExp x) - n * 2 ^ k) (ulpExp_mono hdiff hle) ?_
  have hx' : (nearest (x / 2 ^ ulpExp x) : ℚ) * 2 ^ ulpExp x = x := hx
  push_cast
  rw [sub_mul, hx', mul_assoc, hpow, mul_one]

theorem round_le_two_mul (hx : 0 ≤ x) : round x ≤ 2 * x := by
  have hpos := two_zpow_pos (ulpExp x)
  have hquot : 0 ≤ x / 2 ^ ulpExp x := div_nonneg hx hpos.le
  have hnearest : (nearest (x / 2 ^ ulpExp x) : ℚ) ≤ 2 * (x / 2 ^ ulpExp x) := by
    by_cases hhalf : x / 2 ^ ulpExp x < 1 / 2
    · have hfloor : ⌊x / 2 ^ ulpExp x⌋ = 0 := Int.floor_eq_zero_iff.mpr ⟨hquot, by linarith⟩
      unfold nearest
      rw [hfloor, Int.cast_zero, sub_zero, if_pos hhalf, Int.cast_zero]
      linarith
    · linarith [(abs_le.mp (abs_nearest_sub_le (x / 2 ^ ulpExp x))).2]
  calc round x ≤ 2 * (x / 2 ^ ulpExp x) * 2 ^ ulpExp x := mul_le_mul_of_nonneg_right hnearest hpos.le
    _ = 2 * x := by rw [mul_assoc, div_mul_cancel₀ _ hpos.ne']

/-- Even a quotient that loses its digits is not too large by more than a factor of 2. -/
theorem mul_div_le_two (hx : 0 < x) (hy : y ≤ x) : mul (div 1 x) y ≤ 2 := by
  have hquot : 0 ≤ 1 / x := (one_div_pos.mpr hx).le
  have hproduct : round (1 / x) * y ≤ 2 := by
    calc round (1 / x) * y ≤ round (1 / x) * x := mul_le_mul_of_nonneg_left hy (round_nonneg hquot)
      _ ≤ 2 * (1 / x) * x := mul_le_mul_of_nonneg_right (round_le_two_mul hquot) hx.le
      _ = 2 := by rw [mul_assoc, one_div_mul_cancel hx.ne', mul_one]
  calc mul (div 1 x) y = round (round (1 / x) * y) := rfl
    _ ≤ round 2 := round_mono hproduct
    _ = 2 := by decide +kernel

/-- **A part of a whole**: the rounded quotient times a smaller number is not over 1. -/
theorem mul_div_le_one (hx : 0 < x) (hlarge : x ≤ 2 ^ (1021 : Int)) (hy : y ≤ x) : mul (div 1 x) y ≤ 1 := by
  have hquot : 0 < 1 / x := one_div_pos.mpr hx
  have hulp : -1074 < ulpExp (1 / x) := by
    by_contra hle
    have hlt := (ulpExp_le_iff hquot (le_refl (-1074))).mp (not_lt.mp hle)
    have hone : (2 : ℚ) ^ (-1074 + 53 : Int) * x ≤ 1 := by
      calc (2 : ℚ) ^ (-1074 + 53 : Int) * x ≤ 2 ^ (-1074 + 53 : Int) * 2 ^ (1021 : Int) :=
            mul_le_mul_of_nonneg_left hlarge (two_zpow_pos _).le
        _ = 1 := by
          rw [← zpow_add₀ two_ne_zero, show (-1074 + 53 + 1021 : Int) = 0 by omega, zpow_zero]
    rw [div_lt_iff₀ hx] at hlt
    linarith
  have hbegin := zpow_le_of_lt_ulpExp hquot hulp
  have herror := (abs_le.mp (abs_round_sub_le (1 / x))).2
  -- the quotient is too large by one part in 2 ^ 53 or less
  have hround : round (1 / x) ≤ (1 / x) * (1 + 1 / 2 ^ 53) := by
    rw [zpow_add₀ two_ne_zero] at hbegin
    norm_num at hbegin herror ⊢
    linarith
  have hnonneg : 0 ≤ round (1 / x) := round_nonneg hquot.le
  have hproduct : round (1 / x) * y ≤ 1 + 1 / 2 ^ 53 := by
    calc round (1 / x) * y ≤ round (1 / x) * x := mul_le_mul_of_nonneg_left hy hnonneg
      _ ≤ (1 / x) * (1 + 1 / 2 ^ 53) * x := mul_le_mul_of_nonneg_right hround hx.le
      _ = 1 + 1 / 2 ^ 53 := by
        field_simp
  calc mul (div 1 x) y = round (round (1 / x) * y) := rfl
    _ ≤ round (1 + 1 / 2 ^ 53) := round_mono hproduct
    _ = 1 := by decide +kernel

end Exact

/-! ## Sums with an integer -/

section Integers

variable {x : ℚ} {n : Nat}

theorem nearest_even_add {k : Int} (heven : k % 2 = 0) (hx : 0 ≤ x) (hlt : x < 1) :
    nearest (k + x) = if x ≤ 1 / 2 then k else k + 1 := by
  have hfloor : ⌊(k : ℚ) + x⌋ = k := by
    rw [Int.floor_intCast_add, Int.floor_eq_zero_iff.mpr ⟨hx, hlt⟩, add_zero]
  unfold nearest
  rw [hfloor, add_sub_cancel_left, if_pos heven]
  by_cases hhalf : x ≤ 1 / 2
  · rw [if_pos hhalf, if_neg (not_lt.mpr hhalf), ite_self]
  · rw [if_neg hhalf, if_neg (fun h => hhalf h.le), if_pos (not_le.mp hhalf)]

/-- An integer and less than a unit in its last place. -/
theorem round_natCast_add (hn : 1 ≤ n) (hsize : n < 2 ^ 52) (hx : 0 ≤ x) (hlt : x < 2 ^ ulpExp n) :
    round (n + x) = if x ≤ 2 ^ ulpExp n / 2 then (n : ℚ) else n + 2 ^ ulpExp n := by
  have hpos := two_zpow_pos (ulpExp n)
  have hn' : (0 : ℚ) < n := by exact_mod_cast hn
  have hmin := neg_le_ulpExp (n : ℚ)
  have hexp : ulpExp (n : ℚ) ≤ -1 := (ulpExp_le_iff hn' (by omega)).mpr (by
    norm_num
    exact_mod_cast hsize)
  obtain ⟨k, hk⟩ : ∃ k : Nat, (k : Int) + 1 = -ulpExp (n : ℚ) := ⟨(-ulpExp (n : ℚ) - 1).toNat, by omega⟩
  -- the integer is an even number of units
  obtain ⟨m, hm⟩ : ∃ m : Int, (n : ℚ) = ((m * 2 : Int) : ℚ) * 2 ^ ulpExp (n : ℚ) := by
    refine ⟨n * 2 ^ k, ?_⟩
    have hone : (2 : ℚ) ^ k * 2 * 2 ^ ulpExp (n : ℚ) = 1 := by
      rw [← pow_succ, ← zpow_natCast, ← zpow_add₀ two_ne_zero, Nat.cast_succ, hk, neg_add_cancel, zpow_zero]
    push_cast
    rw [mul_assoc (n : ℚ), mul_assoc (n : ℚ), hone, mul_one]
  -- and the sum has no more digits
  have hbelow := (ulpExp_le_iff hn' hmin).mp (le_refl _)
  have hunits : m * 2 + 1 ≤ 2 ^ 53 := by
    have hdigits : ((m * 2 : Int) : ℚ) * 2 ^ ulpExp (n : ℚ) < 2 ^ 53 * 2 ^ ulpExp (n : ℚ) := by
      rw [← hm, mul_comm]
      rwa [zpow_add₀ two_ne_zero] at hbelow
    have hlt' := lt_of_mul_lt_mul_right hdigits hpos.le
    exact_mod_cast hlt'
  have hulp : ulpExp (n + x) = ulpExp n := by
    apply le_antisymm
    · rw [ulpExp_le_iff (by linarith) hmin, zpow_add₀ two_ne_zero]
      have hnext : ((m * 2 : Int) : ℚ) + 1 ≤ 2 ^ (53 : Int) := by exact_mod_cast hunits
      calc (n : ℚ) + x < n + 2 ^ ulpExp (n : ℚ) := by linarith
        _ = (((m * 2 : Int) : ℚ) + 1) * 2 ^ ulpExp (n : ℚ) := by rw [add_mul, one_mul, ← hm]
        _ ≤ 2 ^ (53 : Int) * 2 ^ ulpExp (n : ℚ) := mul_le_mul_of_nonneg_right hnext hpos.le
        _ = 2 ^ ulpExp (n : ℚ) * 2 ^ (53 : Int) := mul_comm _ _
    · exact ulpExp_mono hn' (by linarith)
  have hquot : (n + x) / 2 ^ ulpExp (n : ℚ) = ((m * 2 : Int) : ℚ) + x / 2 ^ ulpExp (n : ℚ) := by
    rw [add_div]
    congr 1
    rw [div_eq_iff hpos.ne']
    exact hm
  have hhalf : x / 2 ^ ulpExp (n : ℚ) ≤ 1 / 2 ↔ x ≤ 2 ^ ulpExp (n : ℚ) / 2 := by
    rw [div_le_iff₀ hpos, one_div_mul_eq_div]
  unfold round
  rw [hulp, hquot, nearest_even_add (Int.mul_emod_left m 2) (div_nonneg hx hpos.le) ((div_lt_one hpos).mpr hlt)]
  simp only [hhalf]
  split_ifs
  · exact hm.symm
  · rw [Int.cast_add, Int.cast_one, add_mul, one_mul, ← hm]

/-- **What the sum with an integer forgets**: half a unit in its last place, or less. -/
theorem add_natCast_eq_iff (hn : 1 ≤ n) (hsize : n < 2 ^ 52) (hx : 0 ≤ x) :
    add x n = n ↔ x ≤ 2 ^ ulpExp n / 2 := by
  have hpos := two_zpow_pos (ulpExp n)
  unfold add
  rw [add_comm]
  constructor
  · intro heq
    by_contra hlt
    -- a part of `x` that is less than a unit is enough for the next double
    have hpart : 2 ^ ulpExp (n : ℚ) / 2 < min x (2 ^ ulpExp (n : ℚ) * (3 / 4)) :=
      lt_min (not_le.mp hlt) (by linarith)
    have hround := round_natCast_add hn hsize (x := min x (2 ^ ulpExp (n : ℚ) * (3 / 4))) (by linarith)
      (lt_of_le_of_lt (min_le_right _ _) (by linarith))
    rw [if_neg (not_le.mpr hpart)] at hround
    have hmono := round_mono (add_le_add_right (min_le_left x (2 ^ ulpExp (n : ℚ) * (3 / 4))) (n : ℚ))
    linarith
  · intro hle
    rw [round_natCast_add hn hsize hx (by linarith), if_pos hle]

end Integers

/-! ## Conversion to integers -/

/-- A number that fits is truncated. -/
theorem toInt_of_nonneg {x : ℚ} (hx : 0 ≤ x) (hlt : x < 2 ^ 31) : toInt x = ⌊x⌋ := by
  have hfloor : 0 ≤ ⌊x⌋ := Int.floor_nonneg.mpr hx
  have hfits : ⌊x⌋ < 2 ^ 31 := Int.floor_lt.mpr (by exact_mod_cast hlt)
  unfold toInt toSigned
  simp only [if_pos hx]
  rw [if_pos ⟨by omega, hfits⟩]

/-- An integer that does not fit becomes the smallest one. -/
theorem toInt_intCast (n : Int) : toInt n = if -2 ^ 31 ≤ n ∧ n < 2 ^ 31 then n else -2 ^ 31 := by
  unfold toInt toSigned
  rw [Int.floor_intCast, Int.ceil_intCast, ite_self]

example : toInt (div 8 (round (16 / 10))) = 5 := by decide +kernel

/-! ## Sums -/

/-- No partial sum is rounded, whatever the order. -/
def SumsFit (xs : List ℚ) : Prop := ∀ ys : List ℚ, ys.Subperm xs → IsDouble ys.sum

theorem SumsFit.perm {xs ys : List ℚ} (h : SumsFit xs) (hperm : xs.Perm ys) : SumsFit ys := by
  intro zs hzs
  exact h zs (hperm.subperm_left.mpr hzs)

@[simp] theorem total_nil : total [] = 0 := rfl

theorem total_of_sumsFit {xs : List ℚ} (h : SumsFit xs) : total xs = xs.sum := by
  induction xs using List.reverseRecOn with
  | nil => rfl
  | append_singleton xs x ih =>
      have hxs : total xs = xs.sum := ih (fun ys hys => h ys (hys.trans (List.sublist_append_left xs [x]).subperm))
      have hlast : IsDouble (xs ++ [x]).sum := h _ (List.Subperm.refl _)
      unfold total at hxs ⊢
      rw [List.foldl_append, hxs]
      rw [List.sum_append, List.sum_singleton] at hlast ⊢
      exact hlast

/-- **A sum that needs no rounding** has no order. -/
theorem total_perm {xs ys : List ℚ} (h : SumsFit xs) (hperm : xs.Perm ys) : total xs = total ys := by
  rw [total_of_sumsFit h, total_of_sumsFit (h.perm hperm), hperm.sum_eq]

/-- One that does. -/
example : total [2 ^ 53, 1, 1] = 2 ^ 53 ∧ total [1, 1, 2 ^ 53] = 2 ^ 53 + 2 := by decide +kernel

/-- **Sums are monotone.** -/
theorem total_mono {xs ys : List ℚ} (h : List.Forall₂ (· ≤ ·) xs ys) : total xs ≤ total ys := by
  suffices hfold : ∀ a b : ℚ, a ≤ b → xs.foldl add a ≤ ys.foldl add b from hfold 0 0 (le_refl 0)
  induction h with
  | nil => exact fun a b hab => hab
  | @cons x y xs ys hxy _ ih =>
      intro a b hab
      exact ih _ _ (round_mono (add_le_add hab hxy))

end Binary64
