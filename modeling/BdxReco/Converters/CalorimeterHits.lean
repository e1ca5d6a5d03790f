import BdxReco.Converters.Calorimeter
import Mathlib.Algebra.Order.Field.Basic
import Mathlib.Tactic.FieldSimp
import Mathlib.Tactic.Linarith
import Mathlib.Tactic.Ring

/-!
# `Converters.CalorimeterHits` — time and amplitude of the calorimeter hits

What `convertMode1Hit` publishes in each of its branches, and for which waveforms the time and the amplitude are those
of the selected pulse (`belongsToPulse_iff`). With one photoelectron both are taken from the first crossing of the
waveform, whether or not that one has been accepted.
-/

namespace BdxReco

open Reading Fa250Converter
open Binary64 (add sub mul div)

namespace Calorimeterfa250Converter.Setting

variable {g : Setting} {w : List ℚ} {out : CalorimeterSiPMHit}

/-! ## What the branches publish -/

theorem value_noise (g : Setting) (w : List ℚ) (out : CalorimeterSiPMHit) :
    (g.noise w out).value =
      some { out with type := .noise, Qraw := some (windowSum w 0 (g.headEnd w.length)), A := some 0, T := some 0 } := by
  unfold noise
  rw [headSum_eq, value_bind, value_settled, value_sumSamples w (fits_headEnd g w)]
  rfl

theorem value_timeOf {first : Int} (hge : 1 ≤ first) (hlt : first < w.length) :
    (g.timeOf w first).value =
      some (g.interpolate (first - 1) first (sample w (first - 1).toNat) (sample w first.toNat)) := by
  have hfirst : InBounds w.length first := ⟨by omega, hlt⟩
  have hbefore : InBounds w.length (first - 1) := ⟨by omega, by omega⟩
  unfold timeOf
  rw [value_bind, value_get hfirst 0, Option.bind_some, value_bind, value_get hbefore 0]
  rfl

theorem value_timeOf_of_not {first : Int} (hlt : first < 1) : (g.timeOf w first).value = none := by
  have hbefore : ¬ InBounds w.length (first - 1) := by
    unfold InBounds
    omega
  unfold timeOf
  rw [value_bind]
  cases (get w first).value with
  | none => rfl
  | some max =>
      rw [Option.bind_some, value_bind, value_get_of_not hbefore]
      rfl

theorem value_timeOrZero {first : Int} (hge : 2 ≤ first) (hlt : first < w.length) :
    (g.timeOrZero w first).value =
      some (g.interpolate (first - 1) first (sample w (first - 1).toNat) (sample w first.toNat)) := by
  unfold timeOrZero
  rw [if_neg (by omega)]
  exact value_timeOf (by omega) hlt

theorem value_timeOrZero_of_not {first : Int} (hlt : first < 2) : (g.timeOrZero w first).value = none := by
  unfold timeOrZero
  split
  · rfl
  · exact value_timeOf_of_not (by omega)

theorem value_realSignal (g : Setting) (w : List ℚ) (first : Int) (out : CalorimeterSiPMHit) :
    (g.realSignal w first out).value = some (g.rescale { out with
      type := .realSignal
      Qraw := (sumSamples w (g.signalWindow w.length first).1 (g.signalWindow w.length first).2).value
      A := (maximumOfAll w).value.map Prod.fst
      T := (g.timeOrZero w first).value }) := by
  unfold realSignal
  simp only [value_bind, value_settled, Option.bind_some]
  rfl

section One

variable {e : Int × Int} {t : Int}

theorem value_oneSingle_of_not (he : Crossing w g.THR e) (hend : ¬ e.2 < w.length) : (g.oneSingle w e out).value = none := by
  unfold oneSingle
  rw [value_bind, value_getMaximum_of_not he.lt.le (fun h => hend h.2)]
  rfl

theorem value_oneSingle_edge (he : Crossing w g.THR e) (hend : e.2 < w.length) (ht : Peak w e t)
    (hedge : g.AtEdge w.length t) :
    (g.oneSingle w e out).value = some { out with
      type := .onePhe, Qraw := some (windowSum w 0 (g.headEnd w.length)), A := some (sample w t.toNat), T := some 0 } := by
  unfold oneSingle
  rw [value_bind, value_getMaximum ((he.peak_iff hend).mpr ht) (he.nonneg_of_lt hend) hend, Option.bind_some]
  dsimp only
  rw [if_pos hedge, headSum_eq, value_bind, value_settled, value_sumSamples w (fits_headEnd g w)]
  rfl

theorem value_oneSingle_good (he : Crossing w g.THR e) (hend : e.2 < w.length) (ht : Peak w e t)
    (hedge : ¬ g.AtEdge w.length t) :
    (g.oneSingle w e out).value = some (g.rescale { out with
      type := .goodOnePhe, Qraw := some (windowSum w 0 (w.length - 1)), A := some (sample w t.toNat)
      T := (g.timeOf w e.1).value, average := out.average.map (· / w.length) }) := by
  unfold oneSingle
  rw [value_bind, value_getMaximum ((he.peak_iff hend).mpr ht) (he.nonneg_of_lt hend) hend, Option.bind_some]
  dsimp only
  rw [if_neg hedge]
  simp only [value_bind, value_settled, Option.bind_some, sumAll, value_sumSamples w (fits_all w)]
  rfl

end One

theorem value_manyPhe (g : Setting) (w : List ℚ) (singles : List (Int × Int)) (first : Int) (out : CalorimeterSiPMHit) :
    (g.manyPhe w singles first out).value = some (g.rescale { out with
      type := .manyPhe
      Qraw := (singles.foldl (g.afterPhe w) (some 0, some 0)).2
      A := (singles.foldl (g.afterPhe w) (some 0, some 0)).1
      T := (g.timeOrZero w first).value }) := by
  unfold manyPhe
  rw [value_bind, value_foldlM (fun p _ s => value_addPhe s p), Option.bind_some]
  dsimp only
  rw [value_bind, value_settled]
  rfl

/-! ## Time and amplitude of a pulse -/

/-- A pulse long enough for a signal. -/
def SignalPulse (g : Setting) (w : List ℚ) (p : Int × Int) : Prop := IsPulse w g.THR p ∧ g.Long p

/-- A pulse that is accepted as a photoelectron. -/
def SinglePulse (g : Setting) (w : List ℚ) (p : Int × Int) : Prop := IsPulse w g.THR p ∧ g.Accepted w.length p

/-- The pulse the hit is about: the first signal, or else the first accepted photoelectron. -/
def Selected (g : Setting) (w : List ℚ) (p : Int × Int) : Prop :=
  FirstOf (g.SignalPulse w) p ∨ ((∀ q, ¬ g.SignalPulse w q) ∧ FirstOf (g.SinglePulse w) p)

/-- How much of the way from the sample before the crossing to the one after it is below the threshold. -/
def fraction (g : Setting) (w : List ℚ) (a : Int) : ℚ :=
  div (sub g.THR (sample w (a - 1).toNat)) (sub (sample w a.toNat) (sample w (a - 1).toNat))

/-- Where the line through the samples before and after the crossing passes the threshold, in ns. -/
def crossingTime (g : Setting) (w : List ℚ) (a : Int) : ℚ := mul g.dT (add (a - 1) (g.fraction w a))

/-- `T` is the time at which the pulse starts. -/
def IsTimeOf (g : Setting) (w : List ℚ) (p : Int × Int) (T : Option ℚ) : Prop :=
  ∃ x, T = some x ∧
    (1 ≤ p.1 → x = g.crossingTime w p.1 ∧ mul g.dT (p.1 - 1) < x ∧ x ≤ mul g.dT p.1) ∧ (p.1 = 0 → x = 0)

/-- `A` is the maximum of the samples of the pulse. -/
def IsAmplitudeOf (w : List ℚ) (p : Int × Int) (A : Option ℚ) : Prop :=
  ∃ x, A = some x ∧ (∃ i : Nat, p.1 ≤ i ∧ (i : Int) < p.2 ∧ sample w i = x) ∧
    ∀ i : Nat, p.1 ≤ i → (i : Int) < p.2 → sample w i ≤ x

/-- **Time and amplitude of the hit belong to the selected pulse.** -/
def BelongsToPulse (g : Setting) (w : List ℚ) (out : CalorimeterSiPMHit) : Prop :=
  out.type ≠ .noise → ∃ p, g.Selected w p ∧
    (out.type = .realSignal ∨ out.type = .goodOnePhe ∨ out.type = .manyPhe → g.IsTimeOf w p out.T) ∧
    (out.type = .onePhe ∨ out.type = .goodOnePhe → IsAmplitudeOf w p out.A)

/-- The crossing `e` starts where the pulse `p` does, and the fraction of a sample is not lost when it is added to the
    number of the sample before it. -/
def StartsWith (g : Setting) (w : List ℚ) (e p : Int × Int) : Prop :=
  e.1 = p.1 ∧ mul g.dT (e.1 - 1) < mul g.dT (add (e.1 - 1) (g.fraction w e.1))

/-- **The waveforms for which they do**: what the converter looks at is the selected pulse. -/
structure PulseInside (g : Setting) (w : List ℚ) : Prop where
  signal : ∀ e, FirstOf (g.Signal w) e → 2 ≤ e.1 ∧ ∃ p, g.Selected w p ∧ g.StartsWith w e p
  one : g.NoSignal w → (∃ q, g.OnlySingle w q) → ∀ e, FirstOf (Crossing w g.THR) e → e.2 < w.length ∧
    ∃ p, g.Selected w p ∧ ∀ t s, Peak w e t → Peak w p s → sample w t.toNat = sample w s.toNat ∧
      (¬ g.AtEdge w.length t → 1 ≤ e.1 ∧ g.StartsWith w e p)
  many : g.NoSignal w → g.Several w → ∀ e, FirstOf (g.Single w) e →
    2 ≤ e.1 ∧ ∃ p, g.Selected w p ∧ g.StartsWith w e p

section Pulse

variable {p e : Int × Int}

theorem Selected.isPulse (h : g.Selected w p) : IsPulse w g.THR p := by
  rcases h with h | ⟨_, h⟩
  · exact h.1.1
  · exact h.1.1

theorem interpolate_eq (g : Setting) (w : List ℚ) (a : Int) :
    g.interpolate (a - 1) a (sample w (a - 1).toNat) (sample w a.toNat) = g.crossingTime w a := by
  -- the two places are one sample apart, and the factor 1 does nothing to a double
  have hone : sub (a : ℚ) ((a - 1 : Int) : ℚ) = 1 := by
    have hround := Binary64.round_natCast (n := 1) (by omega)
    rw [Nat.cast_one] at hround
    unfold sub
    rw [Int.cast_sub, Int.cast_one, sub_sub_cancel, hround]
  have hfactor : mul (sub g.THR (sample w (a - 1).toNat)) 1 = sub g.THR (sample w (a - 1).toNat) := by
    unfold mul
    rw [mul_one]
    exact Binary64.isDouble_round _
  unfold interpolate crossingTime fraction
  rw [hone, hfactor]
  unfold mul add
  rw [mul_comm, add_comm, Int.cast_sub, Int.cast_one]

/-- The waveform comes from below where the converter sees a crossing. -/
theorem crossing_rises (hp : Crossing w g.THR p) (hone : 1 ≤ p.1) :
    sample w (p.1 - 1).toNat < g.THR ∧ g.THR < sample w p.1.toNat := by
  obtain ⟨a, ha, _, hopens⟩ := hp.opens (by omega)
  obtain ⟨hover, hunder⟩ := (opens_iff_of_pos (by omega : 0 < a)).mp hopens
  rw [show (p.1 - 1).toNat = a - 1 by omega, show p.1.toNat = a by omega]
  exact ⟨hunder, hover⟩

/-- The fraction is one, in doubles as well. -/
theorem fraction_bounds (hp : Crossing w g.THR p) (hone : 1 ≤ p.1) :
    0 ≤ g.fraction w p.1 ∧ g.fraction w p.1 ≤ 1 := by
  obtain ⟨hunder, hover⟩ := crossing_rises hp hone
  have hnum : 0 ≤ sub g.THR (sample w (p.1 - 1).toNat) := Binary64.round_nonneg (by linarith)
  have hle : sub g.THR (sample w (p.1 - 1).toNat) ≤ sub (sample w p.1.toNat) (sample w (p.1 - 1).toNat) :=
    Binary64.round_mono (by linarith)
  constructor
  · exact Binary64.round_nonneg (div_nonneg hnum (le_trans hnum hle))
  · have hround := Binary64.round_mono (div_le_one_of_le₀ hle (le_trans hnum hle))
    have honeD := Binary64.round_natCast (n := 1) (by omega)
    rw [Nat.cast_one] at honeD
    rwa [honeD] at hround

/-- The time lies between the two samples. -/
theorem crossingTime_bounds (hdT : 0 < g.dT) (hsize : w.length < 2 ^ 31) (hp : Crossing w g.THR p) (hone : 1 ≤ p.1) :
    mul g.dT (p.1 - 1) ≤ g.crossingTime w p.1 ∧ g.crossingTime w p.1 ≤ mul g.dT p.1 := by
  have hlt : p.1 < w.length := lt_of_lt_of_le hp.lt hp.le
  obtain ⟨hlow, hhigh⟩ := fraction_bounds hp hone
  have hplace : ∀ n : Int, 0 ≤ n → n ≤ p.1 → Binary64.round (n : ℚ) = n := by
    intro n hn hn'
    exact Binary64.round_intCast (by rw [abs_of_nonneg hn]; omega)
  have hbefore : (p.1 : ℚ) - 1 ≤ add (p.1 - 1) (g.fraction w p.1) := by
    have hround := Binary64.round_mono (show ((p.1 - 1 : Int) : ℚ) ≤ (p.1 - 1) + g.fraction w p.1 by
      push_cast
      linarith)
    rw [hplace (p.1 - 1) (by omega) (by omega)] at hround
    push_cast at hround
    exact hround
  have hafter : add (p.1 - 1) (g.fraction w p.1) ≤ p.1 := by
    have hround := Binary64.round_mono (show (p.1 - 1 : ℚ) + g.fraction w p.1 ≤ (p.1 : Int) by linarith)
    rwa [hplace p.1 (by omega) (le_refl _)] at hround
  exact ⟨Binary64.round_mono (mul_le_mul_of_nonneg_left hbefore hdT.le),
    Binary64.round_mono (mul_le_mul_of_nonneg_left hafter hdT.le)⟩

/-- Later samples have later times. -/
theorem time_lt (hdT : 0 < g.dT) (hdouble : Binary64.IsDouble g.dT) {m n : Int} (hm : 0 ≤ m) (hmn : m < n)
    (hn : n < 2 ^ 31) : mul g.dT m < mul g.dT n := by
  obtain ⟨m, rfl⟩ := Int.eq_ofNat_of_zero_le hm
  obtain ⟨n, rfl⟩ := Int.eq_ofNat_of_zero_le (le_trans hm hmn.le)
  simp only [Int.cast_natCast]
  exact Binary64.mul_lt_mul_natCast hdouble hdT (by omega) (by omega)

/-- **The time of a crossing is that of a pulse when they start at the same sample.** -/
theorem isTimeOf_crossingTime (hdT : 0 < g.dT) (hdouble : Binary64.IsDouble g.dT) (hsize : w.length < 2 ^ 31)
    (he : Crossing w g.THR e) (hone : 1 ≤ e.1) (hp : IsPulse w g.THR p) :
    g.IsTimeOf w p (some (g.crossingTime w e.1)) ↔ g.StartsWith w e p := by
  have hlt : e.1 < w.length := lt_of_lt_of_le he.lt he.le
  obtain ⟨hunder, _⟩ := crossing_rises he hone
  obtain ⟨hlow, hhigh⟩ := crossingTime_bounds hdT hsize he hone
  obtain ⟨a, b, rfl, hblock⟩ := hp
  have hover : g.THR < sample w a := hblock.holds a (le_refl _) hblock.lt
  -- the sample before the crossing is not in a pulse
  have hne : e.1 - 1 ≠ (a : Int) := by
    intro heq
    rw [heq, Int.toNat_natCast] at hunder
    exact lt_asymm hunder hover
  constructor
  · rintro ⟨x, hx, htime, hzero⟩
    rw [← Option.some.inj hx] at htime hzero
    have haone : 1 ≤ (a : Int) := by
      by_contra hnot
      have heq : (a : Int) = 0 := by omega
      have hpos := time_lt hdT hdouble (m := 0) (n := e.1 - 1) (le_refl _) (by omega) (by omega)
      have hmul : mul g.dT ((0 : Int) : ℚ) = 0 := by simp [mul]
      rw [hmul] at hpos
      push_cast at hpos
      linarith [hzero heq]
    obtain ⟨_, hafter, hbefore⟩ := htime haone
    rcases lt_trichotomy e.1 (a : Int) with hea | heq | hea
    · -- too early
      have hle : mul g.dT e.1 ≤ mul g.dT ((a : Int) - 1) := by
        have hcast : (e.1 : ℚ) ≤ ((a : Int) : ℚ) - 1 := by exact_mod_cast (by omega : e.1 ≤ (a : Int) - 1)
        exact Binary64.round_mono (mul_le_mul_of_nonneg_left hcast hdT.le)
      linarith
    · refine ⟨heq, ?_⟩
      have hlate : mul g.dT ((a : Int) - 1) < g.crossingTime w e.1 := hafter
      rwa [← heq] at hlate
    · -- too late
      have hlate := time_lt hdT hdouble (m := (a : Int)) (n := e.1 - 1) (by omega) (by omega) (by omega)
      have hsoon : g.crossingTime w e.1 ≤ mul g.dT ((a : Int) : ℚ) := hbefore
      rw [Int.cast_sub, Int.cast_one] at hlate
      linarith
  · rintro ⟨heq, hkept⟩
    refine ⟨_, rfl, ?_, ?_⟩
    · intro _
      rw [← heq]
      exact ⟨rfl, hkept, hhigh⟩
    · intro hzero
      omega

theorem isTimeOf_timeOf (hdT : 0 < g.dT) (hdouble : Binary64.IsDouble g.dT) (hsize : w.length < 2 ^ 31)
    (he : Crossing w g.THR e) (hp : IsPulse w g.THR p) :
    g.IsTimeOf w p (g.timeOf w e.1).value ↔ 1 ≤ e.1 ∧ g.StartsWith w e p := by
  by_cases hone : 1 ≤ e.1
  · rw [value_timeOf hone (lt_of_lt_of_le he.lt he.le), interpolate_eq,
      isTimeOf_crossingTime hdT hdouble hsize he hone hp]
    simp [hone]
  · rw [value_timeOf_of_not (by omega)]
    simp [IsTimeOf, hone]

theorem isTimeOf_timeOrZero (hdT : 0 < g.dT) (hdouble : Binary64.IsDouble g.dT) (hsize : w.length < 2 ^ 31)
    (he : Crossing w g.THR e) (hp : IsPulse w g.THR p) :
    g.IsTimeOf w p (g.timeOrZero w e.1).value ↔ 2 ≤ e.1 ∧ g.StartsWith w e p := by
  by_cases htwo : 2 ≤ e.1
  · rw [value_timeOrZero htwo (lt_of_lt_of_le he.lt he.le), interpolate_eq,
      isTimeOf_crossingTime hdT hdouble hsize he (by omega) hp]
    simp [htwo]
  · rw [value_timeOrZero_of_not (by omega)]
    simp [IsTimeOf, htwo]

theorem exists_peak_of_isPulse (hp : IsPulse w g.THR p) : ∃ t, Peak w p t := by
  obtain ⟨a, b, rfl, hblock⟩ := hp
  have hlt := hblock.lt
  apply exists_firstMaximum
  dsimp only
  omega

theorem isAmplitudeOf_iff (hp : IsPulse w g.THR p) {s : Int} (hs : Peak w p s) (x : ℚ) :
    IsAmplitudeOf w p (some x) ↔ x = sample w s.toNat := by
  obtain ⟨a, b, rfl, hblock⟩ := hp
  have hge : (a : Int) ≤ s := hs.ge
  have hle : s ≤ (b : Int) - 1 := hs.le
  constructor
  · rintro ⟨y, hy, ⟨i, hi, hi', hattained⟩, hmax⟩
    dsimp only at hi hi' hmax
    rw [Option.some.inj hy]
    refine le_antisymm ?_ (hmax s.toNat (by omega) (by omega))
    rw [← hattained]
    have hsi := hs.le_max i hi (by dsimp only; omega)
    simpa using hsi
  · rintro rfl
    refine ⟨_, rfl, ⟨s.toNat, by dsimp only; omega, by dsimp only; omega, rfl⟩, ?_⟩
    intro i hi hi'
    have hsi := hs.le_max i hi (by dsimp only at hi' ⊢; omega)
    simpa using hsi

theorem belongsToPulse_noise (h : out.type = .noise) : g.BelongsToPulse w out := fun hne => absurd h hne

/-- For signals and for several photoelectrons only the time matters. -/
theorem belongsToPulse_time (h : out.type = .realSignal ∨ out.type = .manyPhe) :
    g.BelongsToPulse w out ↔ ∃ p, g.Selected w p ∧ g.IsTimeOf w p out.T := by
  unfold BelongsToPulse
  rcases h with h | h <;> simp [h]

theorem belongsToPulse_onePhe (h : out.type = .onePhe) :
    g.BelongsToPulse w out ↔ ∃ p, g.Selected w p ∧ IsAmplitudeOf w p out.A := by
  unfold BelongsToPulse
  simp [h]

theorem belongsToPulse_goodOnePhe (h : out.type = .goodOnePhe) :
    g.BelongsToPulse w out ↔ ∃ p, g.Selected w p ∧ g.IsTimeOf w p out.T ∧ IsAmplitudeOf w p out.A := by
  unfold BelongsToPulse
  simp [h]

/-- There is one maximum each, so it need not be quantified. -/
theorem forall_peaks {P : Int → Int → Prop} {t s : Int} (ht : Peak w e t) (hs : Peak w p s) :
    (∀ t s, Peak w e t → Peak w p s → P t s) ↔ P t s := by
  constructor
  · exact fun h => h t s ht hs
  · intro h t' s' ht' hs'
    rw [FirstMaximum.unique ht' ht, FirstMaximum.unique hs' hs]
    exact h

/-- One photoelectron: everything is taken from the first crossing. -/
theorem belongsToPulse_oneSingle (hdT : 0 < g.dT) (hdouble : Binary64.IsDouble g.dT) (hsize : w.length < 2 ^ 31)
    (he : Crossing w g.THR e) :
    (∃ h, (g.oneSingle w e out).value = some h ∧ g.BelongsToPulse w h) ↔
      e.2 < w.length ∧ ∃ p, g.Selected w p ∧ ∀ t s, Peak w e t → Peak w p s →
        sample w t.toNat = sample w s.toNat ∧
        (¬ g.AtEdge w.length t → 1 ≤ e.1 ∧ g.StartsWith w e p) := by
  by_cases hend : e.2 < w.length
  · obtain ⟨t, ht⟩ := he.exists_peak
    simp only [hend, true_and]
    by_cases hedge : g.AtEdge w.length t
    · rw [value_oneSingle_edge he hend ht hedge]
      simp only [Option.some.injEq, exists_eq_left']
      rw [belongsToPulse_onePhe rfl]
      refine exists_congr (fun p => and_congr_right (fun hp => ?_))
      obtain ⟨s, hs⟩ := exists_peak_of_isPulse hp.isPulse
      rw [forall_peaks ht hs]
      simp only [hedge, not_true_eq_false, false_implies, and_true]
      exact isAmplitudeOf_iff hp.isPulse hs _
    · rw [value_oneSingle_good he hend ht hedge]
      simp only [Option.some.injEq, exists_eq_left']
      rw [belongsToPulse_goodOnePhe rfl]
      refine exists_congr (fun p => and_congr_right (fun hp => ?_))
      obtain ⟨s, hs⟩ := exists_peak_of_isPulse hp.isPulse
      rw [forall_peaks ht hs]
      show g.IsTimeOf w p (g.timeOf w e.1).value ∧ IsAmplitudeOf w p (some (sample w t.toNat)) ↔ _
      rw [isTimeOf_timeOf hdT hdouble hsize he hp.isPulse, isAmplitudeOf_iff hp.isPulse hs, and_comm]
      simp [hedge]
  · rw [value_oneSingle_of_not he hend]
    simp [hend]

/-- **Time and amplitude in every branch.** -/
theorem belongsToPulse_analyse (hdT : 0 < g.dT) (hdouble : Binary64.IsDouble g.dT) (hsize : w.length < 2 ^ 31)
    (hw : w ≠ []) (out : CalorimeterSiPMHit) :
    (∃ h, (g.analyse w (crossingTimes w g.THR) out).value = some h ∧ g.BelongsToPulse w h) ↔ g.PulseInside w := by
  -- signals and several photoelectrons share the code for the time
  have htime : ∀ e h, Crossing w g.THR e → (h.type = .realSignal ∨ h.type = .manyPhe) →
      h.T = (g.timeOrZero w e.1).value →
      (g.BelongsToPulse w h ↔ 2 ≤ e.1 ∧ ∃ p, g.Selected w p ∧ g.StartsWith w e p) := by
    intro e h he htype hT
    rw [belongsToPulse_time htype, hT]
    constructor
    · rintro ⟨p, hp, htime⟩
      obtain ⟨htwo, hstarts⟩ := (isTimeOf_timeOrZero hdT hdouble hsize he hp.isPulse).mp htime
      exact ⟨htwo, p, hp, hstarts⟩
    · rintro ⟨htwo, p, hp, hstarts⟩
      exact ⟨p, hp, (isTimeOf_timeOrZero hdT hdouble hsize he hp.isPulse).mpr ⟨htwo, hstarts⟩⟩
  rw [analyse_iff hw out (X := fun x => ∃ h, x.value = some h ∧ g.BelongsToPulse w h) (N := True)
    (S := fun e => 2 ≤ e.1 ∧ ∃ p, g.Selected w p ∧ g.StartsWith w e p) (R := True)
    (M := fun e => 2 ≤ e.1 ∧ ∃ p, g.Selected w p ∧ g.StartsWith w e p) ?_ (fun e he => ?_)
    (fun q e _ _ he => belongsToPulse_oneSingle hdT hdouble hsize he.1) (fun e singles _ he _ _ => ?_)]
  · constructor
    · rintro ⟨_, hsignal, hone, hmany⟩
      exact ⟨hsignal, fun hno ⟨q, hq⟩ => hone hno q hq, fun hno hseveral => (hmany hno hseveral).2⟩
    · rintro ⟨hsignal, hone, hmany⟩
      exact ⟨fun _ _ => trivial, hsignal, fun hno q hq => hone hno ⟨q, hq⟩,
        fun hno hseveral => ⟨trivial, hmany hno hseveral⟩⟩
  · rw [value_noise]
    exact iff_of_true ⟨_, rfl, belongsToPulse_noise rfl⟩ trivial
  · rw [value_realSignal]
    simp only [Option.some.injEq, exists_eq_left']
    exact htime e _ he.1.1 (Or.inl rfl) rfl
  · rw [value_manyPhe]
    simp only [Option.some.injEq, exists_eq_left', true_and]
    exact htime e _ he.1.1 (Or.inr rfl) rfl

end Pulse

end Calorimeterfa250Converter.Setting

namespace Calorimeterfa250Converter

/-- **Exactly when time and amplitude belong to the selected pulse.** -/
theorem belongsToPulse_iff (c : Calorimeterfa250Converter) (calib : ℚ × ℚ × ℚ) (input : Fa250Mode1CalibPedSubHit)
    (hdT : 0 < input.dT) (hdouble : Binary64.IsDouble input.dT) (hsize : input.samples.length < 2 ^ 31) :
    (∃ out, (c.convertMode1Hit calib input).value = some out ∧
        (c.setting calib input).BelongsToPulse (c.waveform input) out) ↔
      input.samples ≠ [] ∧ (c.setting calib input).NPEDs ≤ input.samples.length ∧
      ((c.setting calib input).NPEDs ≠ 0 → (c.setting calib input).PulseInside (c.waveform input)) := by
  by_cases hsamples : input.samples = []
  · simp [convertMode1Hit_empty hsamples, hsamples]
  · by_cases hshort : (c.setting calib input).NPEDs ≤ input.samples.length
    · by_cases hzero : (c.setting calib input).NPEDs = 0
      · rw [(convertMode1Hit_nan hsamples hzero).1]
        refine iff_of_true ⟨_, rfl, Setting.belongsToPulse_noise rfl⟩ ⟨hsamples, hshort, fun h => absurd hzero h⟩
      · rw [(convertMode1Hit_eq hsamples hzero hshort).1,
          Setting.belongsToPulse_analyse (g := c.setting calib input) hdT hdouble
            (by rwa [length_waveform]) (waveform_ne_nil hsamples)]
        simp [hsamples, hshort, hzero]
    · simp [hshort, (convertMode1Hit_long hshort).1]

/-- One good pulse in the middle of the waveform. -/
def pulseHit : Fa250Mode1CalibPedSubHit := hitOf [0, 0, 0, 7, 8, 0, 0, 0]

theorem belongsToPulse_middle :
    0 < pulseHit.dT ∧ Binary64.IsDouble pulseHit.dT ∧ pulseHit.samples.length < 2 ^ 31 ∧
      ((∃ out, (narrow.convertMode1Hit (5, 4, 100) pulseHit).value = some out ∧
          (narrow.setting (5, 4, 100) pulseHit).BelongsToPulse (narrow.waveform pulseHit) out) ↔
        pulseHit.samples ≠ [] ∧ (narrow.setting (5, 4, 100) pulseHit).NPEDs ≤ 8 ∧
        ((narrow.setting (5, 4, 100) pulseHit).NPEDs ≠ 0 →
          (narrow.setting (5, 4, 100) pulseHit).PulseInside (narrow.waveform pulseHit))) := by
  have hdT : 0 < pulseHit.dT := by decide +kernel
  have hdouble : Binary64.IsDouble pulseHit.dT := by decide +kernel
  have hsize : pulseHit.samples.length < 2 ^ 31 := by decide
  exact ⟨hdT, hdouble, hsize, belongsToPulse_iff narrow (5, 4, 100) pulseHit hdT hdouble hsize⟩

/-- A short spike before a pulse. -/
def spikeHit : Fa250Mode1CalibPedSubHit := hitOf [0, 0, 9, 0, 0, 7, 8, 0, 0, 0]

/-- The spike is rejected and the pulse is accepted, but the amplitude is that of the spike. -/
theorem amplitude_of_rejected_spike :
    ¬ ∀ (c : Calorimeterfa250Converter) (calib : ℚ × ℚ × ℚ) (input : Fa250Mode1CalibPedSubHit),
      input.samples ≠ [] → 0 < input.dT → Binary64.IsDouble input.dT → input.samples.length < 2 ^ 31 →
      ∃ out, (c.convertMode1Hit calib input).value = some out ∧
        (c.setting calib input).BelongsToPulse (c.waveform input) out := by
  intro h
  obtain ⟨out, hvalue, hbelongs⟩ := h narrow (5, 4, 100) spikeHit (by simp [spikeHit, hitOf]) (by decide +kernel)
    (by decide +kernel) (by decide)
  have hrun : ((narrow.convertMode1Hit (5, 4, 100) spikeHit).value.map
      (fun out => (out.type, out.A))) = some (.goodOnePhe, some 9) := by decide +kernel
  rw [hvalue, Option.map_some, Option.some.injEq, Prod.mk.injEq] at hrun
  obtain ⟨p, hp, _, hamplitude⟩ := hbelongs (by rw [hrun.1]; decide)
  obtain ⟨x, hx, ⟨i, hi, hi', hsample⟩, _⟩ := hamplitude (Or.inr hrun.1)
  rw [hrun.2, Option.some.injEq] at hx
  rw [← hx] at hsample
  -- the height is only reached at the spike, and that is a pulse of its own
  have hplaces : ∀ j < 10, sample (narrow.waveform spikeHit) j = 9 → j = 2 := by decide +kernel
  obtain ⟨a, b, rfl, hblock⟩ := hp.isPulse
  have hb : b ≤ 10 := hblock.le
  dsimp only at hi hi'
  obtain rfl := hplaces i (by omega) hsample
  have hbefore : ¬ Above (narrow.waveform spikeHit) 5 1 := by
    unfold Above
    decide +kernel
  have hafter : ¬ Above (narrow.waveform spikeHit) 5 3 := by
    unfold Above
    decide +kernel
  have ha : a = 2 := by
    by_contra hne
    exact hbefore (hblock.holds 1 (by omega) (by omega))
  have hb' : b = 3 := by
    by_contra hne
    exact hafter (hblock.holds 3 (by omega) (by omega))
  subst ha hb'
  rcases hp with hsignal | ⟨_, hsingle⟩
  · have hlong := hsignal.1.2
    revert hlong
    unfold Setting.Long
    decide +kernel
  · have haccepted := hsingle.1.2
    revert haccepted
    unfold Setting.Accepted Setting.Long
    decide +kernel

end Calorimeterfa250Converter

end BdxReco
