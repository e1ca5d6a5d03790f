import BdxReco.Converters.IntVeto
import Mathlib.Tactic.FieldSimp
import Mathlib.Tactic.Linarith
import Mathlib.Tactic.Ring

/-!
# `Converters.IntVetoHits` — charge and time of the inner veto hits

The hit describes the highest of the accepted pulses. Its charge is a sum around the maximum of that pulse, with the
widths before and after the maximum swapped (`chargeOriented_iff`). Its time is that of the maximum of the whole
waveform, which may lie in a pulse that has not been accepted (`onePulse_iff`).
-/

namespace BdxReco

open Reading Fa250Converter

namespace IntVetofa250Converter.Setting

/-! ## The highest pulse -/

/-- A crossing that is accepted. -/
def Accepted (g : Setting) (w : List ℚ) (p : Int × Int) : Prop := Crossing w g.thr p ∧ g.LongEnough w.length p

/-- A pulse that is accepted. -/
def AcceptedPulse (g : Setting) (w : List ℚ) (p : Int × Int) : Prop := IsPulse w g.thr p ∧ g.LongEnough w.length p

/-- The first place of the maximum of a crossing, among the samples of the waveform. -/
def PeakIn (w : List ℚ) (p : Int × Int) (t : Int) : Prop := FirstMaximum w (max p.1 0) (p.2 - 1) t

/-- **`p` is the highest accepted crossing**, the first of them if there are several, and `t` the place of its
    maximum. -/
structure IsHighest (g : Setting) (w : List ℚ) (p : Int × Int) (t : Int) : Prop where
  accepted : g.Accepted w p
  peak : PeakIn w p t
  le : ∀ q s, g.Accepted w q → PeakIn w q s → sample w s.toNat ≤ sample w t.toNat
  lt : ∀ q s, g.Accepted w q → PeakIn w q s → q.2 < p.2 → sample w s.toNat < sample w t.toNat

section Highest

variable {g : Setting} {w : List ℚ} {p : Int × Int} {t : Int}

theorem mem_singles (hw : w ≠ []) (p : Int × Int) :
    p ∈ (crossingTimes w g.thr g.TOTTHR g.dT).filter (g.isSingle w.length) ↔ g.Accepted w p := by
  rw [crossingTimes_eq, List.mem_filter, mem_crossingTimes hw]
  unfold isSingle Accepted
  rw [decide_eq_true_eq]
  constructor
  · rintro ⟨hp, _, hlong⟩
    exact ⟨hp, hlong⟩
  · rintro ⟨hp, hlong⟩
    have hlt := hp.lt
    exact ⟨hp, by omega, hlong⟩

theorem singles_ordered (hw : w ≠ []) :
    ((crossingTimes w g.thr g.TOTTHR g.dT).filter (g.isSingle w.length)).Pairwise (fun p q => p.2 < q.2) := by
  rw [crossingTimes_eq]
  exact (crossingTimes_ordered hw g.thr).filter _

theorem exists_peakIn (hp : Crossing w g.thr p) (hw : w ≠ []) : ∃ t, PeakIn w p t := by
  have hlt := hp.lt
  have hpos := List.length_pos_iff.mpr hw
  have hend : 0 < p.2 := by
    by_contra hneg
    have hnonneg := hp.nonneg_of_lt (by omega)
    omega
  apply exists_firstMaximum
  omega

/-- Inside the waveform, `getMaximum` finds the maximum of a pulse. -/
theorem value_getMaximum_clip (hp : Crossing w g.thr p) (ht : PeakIn w p t) :
    (getMaximum w (clip w.length p).1 (clip w.length p).2).value = some (sample w t.toNat, t) := by
  have hge := hp.ge
  by_cases hend : p.2 < w.length
  · -- the sample after the pulse is looked at as well
    have hnonneg := hp.nonneg_of_lt hend
    have hclip : clip w.length p = (p.1, p.2) := by
      unfold clip
      rw [if_neg (by omega), if_neg (by omega)]
    rw [hclip]
    apply value_getMaximum _ hnonneg hend
    rw [hp.peak_iff hend]
    unfold PeakIn at ht
    rwa [max_eq_left hnonneg] at ht
  · have hlast : p.2 = w.length := le_antisymm hp.le (not_lt.mp hend)
    have hclip : clip w.length p = (max p.1 0, p.2 - 1) := by
      unfold clip
      rw [hlast, if_pos (le_refl _)]
      by_cases hneg : p.1 < 0
      · rw [if_pos hneg, max_eq_right hneg.le]
      · rw [if_neg hneg, max_eq_left (by omega)]
    rw [hclip]
    exact value_getMaximum ht (le_max_right _ _) (by omega)

theorem IsHighest.unique {p' : Int × Int} {t' : Int} (hw : w ≠ []) (h : g.IsHighest w p t) (h' : g.IsHighest w p' t') :
    p = p' ∧ t = t' := by
  have hends : p.2 = p'.2 := by
    rcases lt_trichotomy p.2 p'.2 with hlt | heq | hgt
    · exact absurd (h'.lt p t h.accepted h.peak hlt) (not_lt.mpr (h.le p' t' h'.accepted h'.peak))
    · exact heq
    · exact absurd (h.lt p' t' h'.accepted h'.peak hgt) (not_lt.mpr (h'.le p t h.accepted h.peak))
  have hpulse := h.accepted.1.eq_of_end h'.accepted.1 hends hw
  subst hpulse
  exact ⟨rfl, FirstMaximum.unique h.peak h'.peak⟩

/-- The height of a pulse. -/
def height (w : List ℚ) (p : Int × Int) : ℚ :=
  ((getMaximum w (clip w.length p).1 (clip w.length p).2).value.map Prod.fst).getD 0

theorem height_eq (hp : Crossing w g.thr p) (ht : PeakIn w p t) : height w p = sample w t.toNat := by
  unfold height
  rw [value_getMaximum_clip hp ht]
  rfl

/-- The loop over the accepted pulses is a scan for the highest one. -/
theorem value_highest (hw : w ≠ []) {singles : List (Int × Int)} (hsingles : ∀ q ∈ singles, g.Accepted w q) :
    (highest w singles).value = some (FirstMax.scan (height w) some (-9999, none) singles) := by
  unfold highest FirstMax.scan
  apply value_foldlM
  intro q hq s
  obtain ⟨t, ht⟩ := exists_peakIn (hsingles q hq).1 hw
  rw [value_bind, value_getMaximum_clip (hsingles q hq).1 ht, height_eq (hsingles q hq).1 ht]
  rfl

/-- The pulse at which a scan for the height stops is the highest one. -/
theorem isHighest_of_scan {singles : List (Int × Int)} (hmem : ∀ q, q ∈ singles ↔ g.Accepted w q)
    (hp : p ∈ singles) (ht : PeakIn w p t)
    (hmax : ∀ q ∈ singles, height w q ≤ height w p ∧ (q.2 < p.2 → height w q < height w p)) : g.IsHighest w p t := by
  have hpA := (hmem p).mp hp
  refine ⟨hpA, ht, ?_, ?_⟩
  · intro q s hq hs
    rw [← height_eq hpA.1 ht, ← height_eq hq.1 hs]
    exact (hmax q ((hmem q).mpr hq)).1
  · intro q s hq hs hlt
    rw [← height_eq hpA.1 ht, ← height_eq hq.1 hs]
    exact (hmax q ((hmem q).mpr hq)).2 hlt

theorem peakIn_of_value {x : ℚ} (hw : w ≠ []) (hp : Crossing w g.thr p)
    (hvalue : (getMaximum w (clip w.length p).1 (clip w.length p).2).value = some (x, t)) : PeakIn w p t := by
  obtain ⟨u, hu⟩ := exists_peakIn hp hw
  rw [value_getMaximum_clip hp hu] at hvalue
  have hut : u = t := congrArg Prod.snd (Option.some.inj hvalue)
  rwa [hut] at hu

/-- The only accepted pulse is the highest one. -/
theorem isHighest_of_only {x : ℚ} (hw : w ≠ [])
    (hsingles : (crossingTimes w g.thr g.TOTTHR g.dT).filter (g.isSingle w.length) = [p])
    (hvalue : (getMaximum w (clip w.length p).1 (clip w.length p).2).value = some (x, t)) : g.IsHighest w p t := by
  have hmem := mem_singles (g := g) hw
  rw [hsingles] at hmem
  have hp : p ∈ [p] := List.mem_singleton.mpr rfl
  apply isHighest_of_scan hmem hp (peakIn_of_value hw ((hmem p).mp hp).1 hvalue)
  intro q hq
  rw [List.mem_singleton.mp hq]
  exact ⟨le_refl _, fun hlt => absurd hlt (lt_irrefl _)⟩

/-- **What the loop leaves**: `imax` is the highest pulse if that is over the initial value of `Araw`, and has not been
    set otherwise. -/
theorem highest_cases {singles : List (Int × Int)} (hw : w ≠ []) (hmem : ∀ q, q ∈ singles ↔ g.Accepted w q)
    (hordered : singles.Pairwise (fun p q => p.2 < q.2)) (hne : singles ≠ []) :
    ∃ p t, g.IsHighest w p t ∧ (highest w singles).value =
      some (if -9999 < sample w t.toNat then (sample w t.toNat, some p) else (-9999, none)) := by
  rw [value_highest hw (fun q hq => (hmem q).mp hq)]
  -- pulses are ordered by their ends, so the first of equal heights is kept
  have hasymm : ∀ a b : Int × Int, a.2 < b.2 → ¬ b.2 < a.2 := fun a b hab => not_lt.mpr hab.le
  rcases FirstMax.scan_cases hasymm (height w) some (-9999, none) hordered with ⟨hstay, hle⟩ | ⟨p, hp, hlt, hstop, hmax⟩
  · -- all pulses are below: the highest one exists all the same
    obtain ⟨q, hq⟩ := List.exists_mem_of_ne_nil singles hne
    rcases FirstMax.scan_cases hasymm (height w) some (height w q - 1, none) hordered with ⟨_, hle'⟩ | ⟨p, hp, _, _, hmax⟩
    · have hself : height w q ≤ height w q - 1 := hle' q hq
      linarith
    · obtain ⟨t, ht⟩ := exists_peakIn ((hmem p).mp hp).1 hw
      refine ⟨p, t, isHighest_of_scan hmem hp ht hmax, ?_⟩
      rw [hstay, if_neg]
      rw [← height_eq ((hmem p).mp hp).1 ht]
      exact not_lt.mpr (hle p hp)
  · obtain ⟨t, ht⟩ := exists_peakIn ((hmem p).mp hp).1 hw
    refine ⟨p, t, isHighest_of_scan hmem hp ht hmax, ?_⟩
    rw [hstop, height_eq ((hmem p).mp hp).1 ht, if_pos]
    rw [← height_eq ((hmem p).mp hp).1 ht]
    exact hlt

end Highest

/-! ## What the branches publish -/

/-- A hit without accepted pulse. -/
structure IsNoise (w : List ℚ) (out h : IntVetoWaveformHit) : Prop where
  type : h.type = .noise
  Araw : ∃ u, FirstMaximum w 0 (w.length - 1) u ∧ h.Araw = some (sample w u.toNat)
  Ttot : h.Ttot = out.Ttot

/-- A hit whose highest pulse has its maximum at `t`. -/
structure IsSignal (g : Setting) (w : List ℚ) (TOT : ℚ) (t : Int) (h : IntVetoWaveformHit) : Prop where
  type : h.type = .realSignal
  Araw : h.Araw = some (if -9999 < sample w t.toNat then sample w t.toNat else -9999)
  Qraw : h.Qraw = if -9999 < sample w t.toNat
    then (sumSamples w (g.chargeWindow w.length t).1 (g.chargeWindow w.length t).2).value else none
  T : ∃ u, FirstMaximum w 0 (w.length - 1) u ∧ h.T = some (u * g.dT)
  Ttot : h.Ttot = some TOT

section Branches

variable {g : Setting} {w : List ℚ} {TOT : ℚ} {out : IntVetoWaveformHit} {p : Int × Int} {t : Int}

/-- The window of the charge has to start at an `int`. -/
theorem fits_chargeWindow (hsize : w.length < 2 ^ 31) (t : Int) :
    Fits w (g.chargeWindow w.length t).1 (g.chargeWindow w.length t).2 ↔ t - g.NSAs < 2 ^ 31 := by
  unfold chargeWindow Fits
  dsimp only
  rw [asInt_eq, asInt_eq]
  split_ifs <;> omega

theorem windowSum_chargeWindow (hsize : w.length < 2 ^ 31) {t : Int} (ht : t - g.NSAs < 2 ^ 31) :
    windowSum w (g.chargeWindow w.length t).1 (g.chargeWindow w.length t).2 = windowSum w (t - g.NSAs) (t + g.NSBs) := by
  apply windowSum_congr
  intro i hlt
  unfold chargeWindow
  dsimp only
  rw [asInt_eq, asInt_eq]
  split_ifs <;> omega

theorem value_charge (hp : Crossing w g.thr p) (ht : PeakIn w p t) :
    (g.charge w (some p)).value =
      (sumSamples w (g.chargeWindow w.length t).1 (g.chargeWindow w.length t).2).value := by
  unfold charge
  dsimp only
  rw [value_bind, value_getMaximum_clip hp ht, Option.bind_some]

/-- The sum over the window of the charge. -/
theorem value_sumSamples_chargeWindow (hsize : w.length < 2 ^ 31) (t : Int) :
    (sumSamples w (g.chargeWindow w.length t).1 (g.chargeWindow w.length t).2).value =
      if t - g.NSAs < 2 ^ 31 then some (windowSum w (t - g.NSAs) (t + g.NSBs)) else none := by
  split_ifs with hfits
  · rw [value_sumSamples w ((fits_chargeWindow hsize t).mpr hfits), windowSum_chargeWindow hsize hfits]
  · exact value_sumSamples_of_not w (fun h => hfits ((fits_chargeWindow hsize t).mp h))

theorem noise_isNoise (hw : w ≠ []) (out : IntVetoWaveformHit) :
    ∃ h, (g.noise w out).value = some h ∧ IsNoise w out h := by
  obtain ⟨u, hu, hmax⟩ := value_maximumOfAll hw
  unfold noise
  dsimp only
  rw [value_bind, value_settled, Option.bind_some, value_bind, hmax, Option.bind_some]
  exact ⟨_, rfl, rfl, ⟨u, hu, rfl⟩, rfl⟩

theorem realSignal_isSignal {singles : List (Int × Int)} (hw : w ≠ []) (hmem : ∀ q, q ∈ singles ↔ g.Accepted w q)
    (hordered : singles.Pairwise (fun p q => p.2 < q.2)) (hne : singles ≠ []) (out : IntVetoWaveformHit) :
    ∃ p t h, g.IsHighest w p t ∧ (g.realSignal w singles TOT out).value = some h ∧ g.IsSignal w TOT t h := by
  obtain ⟨p, t, hhighest, hvalue⟩ := highest_cases hw hmem hordered hne
  obtain ⟨u, hu, hmax⟩ := value_maximumOfAll hw
  unfold realSignal
  rw [value_bind, hvalue, Option.bind_some]
  by_cases hover : -9999 < sample w t.toNat
  · rw [if_pos hover]
    dsimp only
    rw [value_bind, value_settled, Option.bind_some, value_charge hhighest.accepted.1 hhighest.peak, value_bind, hmax,
      Option.bind_some]
    exact ⟨p, t, _, hhighest, rfl, rfl, by rw [if_pos hover], by rw [if_pos hover], ⟨u, hu, rfl⟩, rfl⟩
  · -- `imax` has not been set, and the window could be anywhere
    rw [if_neg hover]
    dsimp only
    rw [value_bind, value_settled, Option.bind_some, value_bind, hmax, Option.bind_some]
    exact ⟨p, t, _, hhighest, rfl, rfl, by rw [if_neg hover], by rw [if_neg hover]; rfl, ⟨u, hu, rfl⟩, rfl⟩

/-- **The two ways of the analysis.** -/
theorem analyse_cases (hw : w ≠ []) (TOT : ℚ) (out : IntVetoWaveformHit) :
    ((∀ p, ¬ g.Accepted w p) ∧ ∃ h, (g.analyseWith w TOT out).value = some h ∧ IsNoise w out h) ∨
    (∃ p t h, g.IsHighest w p t ∧ (g.analyseWith w TOT out).value = some h ∧ g.IsSignal w TOT t h) := by
  have hmem := mem_singles (g := g) hw
  have hordered := singles_ordered (g := g) hw
  have hscan := scanReads_inBounds (List.length_pos_iff.mpr hw)
  unfold analyseWith
  rw [value_bind, value_sumAll, Option.bind_some, value_bind, value_loop w _ 0 hscan, Option.bind_some]
  dsimp only
  cases hsingles : (crossingTimes w g.thr g.TOTTHR g.dT).filter (g.isSingle w.length) with
  | nil =>
      rw [hsingles] at hmem
      left
      refine ⟨fun p hp => absurd ((hmem p).mpr hp) List.not_mem_nil, ?_⟩
      obtain ⟨h, hvalue, hnoise⟩ := noise_isNoise (g := g) hw
        { out with average := some ((∑ i ∈ Finset.range w.length, sample w i) / w.length), nSingles := 0 }
      exact ⟨h, hvalue, hnoise.type, hnoise.Araw, hnoise.Ttot⟩
  | cons p rest =>
      rw [hsingles] at hmem hordered
      right
      exact realSignal_isSignal hw hmem hordered (List.cons_ne_nil _ _) _

theorem exists_isHighest (hw : w ≠ []) (hp : g.Accepted w p) : ∃ p t, g.IsHighest w p t := by
  rcases analyse_cases (g := g) hw 0 {} with ⟨hnone, _⟩ | ⟨p, t, _, hhighest, _⟩
  · exact absurd hp (hnone p)
  · exact ⟨p, t, hhighest⟩

/-- Without samples the loop has no sample to start from. -/
theorem analyse_nil (g : Setting) (TOT : ℚ) (out : IntVetoWaveformHit) :
    (g.analyseWith [] TOT out).value = none := by
  have hreads : ¬ ∀ i ∈ scanReads ([] : List ℚ).length, InBounds ([] : List ℚ).length i := by decide
  unfold analyseWith
  rw [value_bind, value_sumAll, Option.bind_some, value_bind, value_loop_of_not _ _ hreads]
  rfl

/-- What is said about signals is said about the highest pulse. -/
theorem exists_signal_iff {P : IntVetoWaveformHit → Prop} {C : Int × Int → Int → Prop}
    (hP : ∀ p t h, w ≠ [] → g.IsHighest w p t → g.IsSignal w TOT t h → (P h ↔ C p t)) :
    (∃ h, (g.analyseWith w TOT out).value = some h ∧ (h.type = .realSignal → P h)) ↔
      w ≠ [] ∧ ∀ p t, g.IsHighest w p t → C p t := by
  by_cases hw : w = []
  -- the code reads `m_waveform[0]` all the same
  · rw [hw, analyse_nil]
    simp
  · rcases analyse_cases (g := g) hw TOT out with ⟨hnone, h, hvalue, hnoise⟩ | ⟨p, t, h, hhighest, hvalue, hsignal⟩
    · rw [hvalue]
      refine iff_of_true ⟨h, rfl, fun htype => ?_⟩ ⟨hw, fun p t hp => absurd hp.accepted (hnone p)⟩
      rw [hnoise.type] at htype
      exact absurd htype (by decide)
    · rw [hvalue]
      simp only [Option.some.injEq, exists_eq_left', hsignal.type, true_implies]
      rw [hP p t h hw hhighest hsignal]
      constructor
      · intro hC
        refine ⟨hw, ?_⟩
        intro p' t' hp'
        obtain ⟨rfl, rfl⟩ := hp'.unique hw hhighest
        exact hC
      · exact fun hC => hC.2 p t hhighest

end Branches

/-! ## The window of the charge -/

/-- The charge is the sum from `NSB` before the maximum of the highest pulse to `NSA` after it. -/
def ChargeOriented (g : Setting) (w : List ℚ) (h : IntVetoWaveformHit) : Prop :=
  ∀ p t, g.IsHighest w p t → h.Qraw = some (windowSum w (t - g.NSBs) (t + g.NSAs))

/-- **The samples that are further from the maximum than the smaller of the two widths, but not further than the
    larger one, have the same sum on both sides.** -/
def Balanced (g : Setting) (w : List ℚ) (t : Int) : Prop :=
  g.NSBs + g.NSAs < 0 ∨
    windowSum w (t - max g.NSAs g.NSBs) (t - min g.NSAs g.NSBs - 1) =
      windowSum w (t + min g.NSAs g.NSBs + 1) (t + max g.NSAs g.NSBs)

/-- No accepted pulse has a higher sample than that at `t`, which is one of the accepted pulse `p`. -/
structure MaximalAt (g : Setting) (w : List ℚ) (p : Int × Int) (t : Int) : Prop where
  accepted : g.AcceptedPulse w p
  ge : p.1 ≤ t
  lt : t < p.2
  le_max : ∀ q i, g.AcceptedPulse w q → q.1 ≤ i → i < q.2 → sample w i.toNat ≤ sample w t.toNat

/-- **Time, amplitude and charge of the hit are those of one sample of the highest accepted pulse**: the time is that of
    the sample, the amplitude its height, and the charge was summed around it, for the crossing `e`. -/
def OnePulse (g : Setting) (w : List ℚ) (h : IntVetoWaveformHit) : Prop :=
  ∃ p t e, g.MaximalAt w p t ∧ h.T = some (g.dT * t) ∧ h.Araw = some (sample w t.toNat) ∧ g.IsHighest w e t ∧
    h.Qraw = some (windowSum w (g.chargeWindow w.length t).1 (g.chargeWindow w.length t).2)

section Pulse

variable {g : Setting} {w : List ℚ} {TOT : ℚ} {h : IntVetoWaveformHit} {p : Int × Int} {t : Int}

/-- **A window and its mirror image** have the same sum when the parts that are in one of them only have. -/
theorem mirrored_iff (g : Setting) (w : List ℚ) (t : Int) :
    windowSum w (t - g.NSAs) (t + g.NSBs) = windowSum w (t - g.NSBs) (t + g.NSAs) ↔ g.Balanced w t := by
  unfold Balanced
  by_cases hempty : g.NSBs + g.NSAs < 0
  · -- both windows are empty
    rw [windowSum_empty w (by omega), windowSum_empty w (by omega)]
    simp [hempty]
  · simp only [hempty, false_or]
    rcases le_total g.NSAs g.NSBs with hle | hle
    · rw [max_eq_right hle, min_eq_left hle]
      have hleft := windowSum_split w (t - g.NSBs) (t - g.NSAs - 1) (t + g.NSBs) (by omega) (by omega)
      have hright := windowSum_split w (t - g.NSBs) (t + g.NSAs) (t + g.NSBs) (by omega) (by omega)
      rw [show t - g.NSAs - 1 + 1 = t - g.NSAs by omega] at hleft
      constructor
      · intro heq
        linarith
      · intro heq
        linarith
    · rw [max_eq_left hle, min_eq_right hle]
      have hleft := windowSum_split w (t - g.NSAs) (t - g.NSBs - 1) (t + g.NSAs) (by omega) (by omega)
      have hright := windowSum_split w (t - g.NSAs) (t + g.NSBs) (t + g.NSAs) (by omega) (by omega)
      rw [show t - g.NSBs - 1 + 1 = t - g.NSBs by omega] at hleft
      constructor
      · intro heq
        linarith
      · intro heq
        linarith

theorem chargeOriented_signal (hsize : w.length < 2 ^ 31) (hw : w ≠ []) (hp : g.IsHighest w p t)
    (hh : g.IsSignal w TOT t h) :
    g.ChargeOriented w h ↔ -9999 < sample w t.toNat ∧ t - g.NSAs < 2 ^ 31 ∧ g.Balanced w t := by
  -- there is one highest pulse
  have hone : g.ChargeOriented w h ↔ h.Qraw = some (windowSum w (t - g.NSBs) (t + g.NSAs)) := by
    constructor
    · intro hc
      exact hc p t hp
    · intro hQ p' t' hp'
      obtain ⟨rfl, rfl⟩ := hp'.unique hw hp
      exact hQ
  rw [hone, hh.Qraw, ← mirrored_iff, value_sumSamples_chargeWindow hsize]
  by_cases hover : -9999 < sample w t.toNat
  · by_cases hstart : t - g.NSAs < 2 ^ 31
    · rw [if_pos hover, if_pos hstart, Option.some.injEq]
      simp only [hover, hstart, true_and]
    · rw [if_pos hover, if_neg hstart]
      simp only [hstart, false_and, and_false, reduceCtorEq]
  · rw [if_neg hover]
    simp [hover]

/-- The time is right when the maximum of the crossing is the first maximum of the waveform, and a sample of an accepted
    pulse. -/
theorem onePulse_signal (hsize : w.length < 2 ^ 31) (hdT : g.dT ≠ 0) (hw : w ≠ []) (hp : g.IsHighest w p t)
    (hh : g.IsSignal w TOT t h) :
    g.OnePulse w h ↔ -9999 < sample w t.toNat ∧ t - g.NSAs < 2 ^ 31 ∧ FirstMaximum w 0 (w.length - 1) t ∧
      ∃ q, g.AcceptedPulse w q ∧ q.1 ≤ t ∧ t < q.2 := by
  have hcharge := hh.Qraw
  rw [value_sumSamples_chargeWindow hsize] at hcharge
  obtain ⟨u, hu, hT⟩ := hh.T
  constructor
  · rintro ⟨q, t', e, hmax, hT', hAraw, he, hQraw⟩
    obtain ⟨rfl, rfl⟩ := he.unique hw hp
    rw [hQraw] at hcharge
    have hover : -9999 < sample w t'.toNat := by
      by_contra hnot
      rw [if_neg hnot] at hcharge
      exact absurd hcharge (by simp)
    have hstart : t' - g.NSAs < 2 ^ 31 := by
      by_contra hnot
      rw [if_pos hover, if_neg hnot] at hcharge
      exact absurd hcharge (by simp)
    refine ⟨hover, hstart, ?_, q, hmax.accepted, hmax.ge, hmax.lt⟩
    rw [hT, Option.some.injEq, mul_comm] at hT'
    -- equal times are equal samples
    have hut : u = t' := by exact_mod_cast mul_left_cancel₀ hdT hT'
    rwa [hut] at hu
  · rintro ⟨hover, hstart, hfirst, q, hq, hge, hlt⟩
    refine ⟨q, t, p, ⟨hq, hge, hlt, ?_⟩, ?_, ?_, hp, ?_⟩
    · -- no sample of the waveform is higher
      rintro q' i ⟨⟨a, b, rfl, hblock⟩, _⟩ hi hi'
      have hle := hblock.le
      dsimp only at hi hi'
      exact hfirst.le_max i (by omega) (by omega)
    · rw [hT, hu.unique hfirst, mul_comm]
    · rw [hh.Araw, if_pos hover]
    · rw [hcharge, if_pos hover, if_pos hstart, windowSum_chargeWindow hsize hstart]

end Pulse

end IntVetofa250Converter.Setting

namespace IntVetofa250Converter

section Convert

variable {c : IntVetofa250Converter} {ampl : ℚ} {input : Fa250Mode1CalibPedSubHit} {r : Refined}

theorem convertMode1Hit_eq (hr : (c.refinePedestal ampl input).value = some r) :
    (c.convertMode1Hit ampl input).value =
      ((c.setting ampl input).analyse (subtract input.samples r.ped)
        { pedMean := some r.ped, pedRMS := r.pedRMS, RMSflag := r.found }).value := by
  unfold convertMode1Hit
  rw [value_bind, hr]
  rfl

end Convert

/-- **Exactly when the window of the charge is oriented as documented.** -/
theorem chargeOriented_iff (c : IntVetofa250Converter) (ampl : ℚ) (input : Fa250Mode1CalibPedSubHit) (r : Refined)
    (hsize : input.samples.length < 2 ^ 31) (hr : (c.refinePedestal ampl input).value = some r) :
    (∃ out, (c.convertMode1Hit ampl input).value = some out ∧
        (out.type = .realSignal → (c.setting ampl input).ChargeOriented (subtract input.samples r.ped) out)) ↔
      input.samples ≠ [] ∧ ∀ p t, (c.setting ampl input).IsHighest (subtract input.samples r.ped) p t →
        -9999 < sample (subtract input.samples r.ped) t.toNat ∧ t - (c.setting ampl input).NSAs < 2 ^ 31 ∧
        (c.setting ampl input).Balanced (subtract input.samples r.ped) t := by
  rw [convertMode1Hit_eq hr, ← subtract_ne_nil input.samples r.ped]
  apply Setting.exists_signal_iff
  intro p t h hw hp hh
  exact Setting.chargeOriented_signal (by rwa [length_subtract]) hw hp hh

/-- A converter with a window of one sample before the maximum and two after it. -/
def lopsided : IntVetofa250Converter :=
  { minTot := some 4, thr := some 1, NSB := some 4, NSA := some 8, NPED := some 4, TOTTHR := some 6 }

/-- A pulse with a tail. -/
def tailHit : Fa250Mode1CalibPedSubHit := vetoHit [0, 0, 1, 9, 8, 3, 2, 0, 0, 0]

theorem chargeOriented_tail :
    tailHit.samples.length < 2 ^ 31 ∧ (lopsided.refinePedestal 5 tailHit).value = some ⟨true, 0, some 0⟩ ∧
      ((∃ out, (lopsided.convertMode1Hit 5 tailHit).value = some out ∧ (out.type = .realSignal →
          (lopsided.setting 5 tailHit).ChargeOriented (subtract tailHit.samples 0) out)) ↔
        tailHit.samples ≠ [] ∧ ∀ p t, (lopsided.setting 5 tailHit).IsHighest (subtract tailHit.samples 0) p t →
          -9999 < sample (subtract tailHit.samples 0) t.toNat ∧ t - (lopsided.setting 5 tailHit).NSAs < 2 ^ 31 ∧
          (lopsided.setting 5 tailHit).Balanced (subtract tailHit.samples 0) t) := by
  have hsize : tailHit.samples.length < 2 ^ 31 := by decide
  have hr : (lopsided.refinePedestal 5 tailHit).value = some ⟨true, 0, some 0⟩ := by decide +kernel
  exact ⟨hsize, hr, chargeOriented_iff lopsided 5 tailHit ⟨true, 0, some 0⟩ hsize hr⟩

/-- The charge of the pulse is 18, the sum over the documented window 21. -/
theorem charge_mirrored :
    ¬ ∀ (c : IntVetofa250Converter) (ampl : ℚ) (input : Fa250Mode1CalibPedSubHit) (r : Refined),
      input.samples ≠ [] → 0 < input.dT → (c.refinePedestal ampl input).value = some r →
      ∃ out, (c.convertMode1Hit ampl input).value = some out ∧
        (out.type = .realSignal → (c.setting ampl input).ChargeOriented (subtract input.samples r.ped) out) := by
  intro h
  obtain ⟨out, hvalue, horiented⟩ := h lopsided 5 tailHit ⟨true, 0, some 0⟩ (by simp [tailHit, vetoHit])
    (by decide +kernel) (by decide +kernel)
  have hrun : (lopsided.convertMode1Hit 5 tailHit).value.map (fun out => (out.type, out.Qraw))
      = some (.realSignal, some 18) := by decide +kernel
  rw [hvalue, Option.map_some, Option.some.injEq, Prod.mk.injEq] at hrun
  have hw : subtract tailHit.samples 0 ≠ [] := (subtract_ne_nil _ _).mpr (by simp [tailHit, vetoHit])
  have hhighest : (lopsided.setting 5 tailHit).IsHighest (subtract tailHit.samples 0) (3, 5) 3 :=
    Setting.isHighest_of_only hw (x := 9) (by decide +kernel) (by decide +kernel)
  have hQraw := horiented hrun.1 (3, 5) 3 hhighest
  rw [hrun.2, Option.some.injEq] at hQraw
  revert hQraw
  decide +kernel

/-- **Exactly when amplitude, charge and time describe the same pulse.** -/
theorem onePulse_iff (c : IntVetofa250Converter) (ampl : ℚ) (input : Fa250Mode1CalibPedSubHit) (r : Refined)
    (hsize : input.samples.length < 2 ^ 31) (hdT : input.dT ≠ 0)
    (hr : (c.refinePedestal ampl input).value = some r) :
    (∃ out, (c.convertMode1Hit ampl input).value = some out ∧
        (out.type = .realSignal → (c.setting ampl input).OnePulse (subtract input.samples r.ped) out)) ↔
      input.samples ≠ [] ∧ ∀ p t, (c.setting ampl input).IsHighest (subtract input.samples r.ped) p t →
        -9999 < sample (subtract input.samples r.ped) t.toNat ∧ t - (c.setting ampl input).NSAs < 2 ^ 31 ∧
        FirstMaximum (subtract input.samples r.ped) 0 ((subtract input.samples r.ped).length - 1) t ∧
        ∃ q, (c.setting ampl input).AcceptedPulse (subtract input.samples r.ped) q ∧ q.1 ≤ t ∧ t < q.2 := by
  rw [convertMode1Hit_eq hr, ← subtract_ne_nil input.samples r.ped]
  apply Setting.exists_signal_iff
  intro p t h hw hp hh
  exact Setting.onePulse_signal (by rwa [length_subtract]) hdT hw hp hh

/-- A short spike before a longer pulse. -/
def spikeVetoHit : Fa250Mode1CalibPedSubHit := vetoHit [0, 0, 20, 0, 0, 7, 9, 8, 0, 0]

theorem onePulse_tail :
    tailHit.samples.length < 2 ^ 31 ∧ tailHit.dT ≠ 0 ∧ (lopsided.refinePedestal 5 tailHit).value = some ⟨true, 0, some 0⟩ ∧
      ((∃ out, (lopsided.convertMode1Hit 5 tailHit).value = some out ∧ (out.type = .realSignal →
          (lopsided.setting 5 tailHit).OnePulse (subtract tailHit.samples 0) out)) ↔
        tailHit.samples ≠ [] ∧ ∀ p t, (lopsided.setting 5 tailHit).IsHighest (subtract tailHit.samples 0) p t →
          -9999 < sample (subtract tailHit.samples 0) t.toNat ∧ t - (lopsided.setting 5 tailHit).NSAs < 2 ^ 31 ∧
          FirstMaximum (subtract tailHit.samples 0) 0 ((subtract tailHit.samples 0).length - 1) t ∧
          ∃ q, (lopsided.setting 5 tailHit).AcceptedPulse (subtract tailHit.samples 0) q ∧ q.1 ≤ t ∧ t < q.2) := by
  have hsize : tailHit.samples.length < 2 ^ 31 := by decide
  have hr : (lopsided.refinePedestal 5 tailHit).value = some ⟨true, 0, some 0⟩ := by decide +kernel
  have hdT : tailHit.dT ≠ 0 := by decide +kernel
  exact ⟨hsize, hdT, hr, onePulse_iff lopsided 5 tailHit ⟨true, 0, some 0⟩ hsize hdT hr⟩

/-- The pulse at sample 6 is accepted, and the time is that of the spike at sample 2. -/
theorem time_of_rejected_spike :
    ¬ ∀ (c : IntVetofa250Converter) (ampl : ℚ) (input : Fa250Mode1CalibPedSubHit) (r : Refined),
      input.samples ≠ [] → 0 < input.dT → (c.refinePedestal ampl input).value = some r →
      ∃ out, (c.convertMode1Hit ampl input).value = some out ∧
        (out.type = .realSignal → (c.setting ampl input).OnePulse (subtract input.samples r.ped) out) := by
  intro h
  obtain ⟨out, hvalue, hone⟩ := h lopsided 5 spikeVetoHit ⟨true, 0, some 0⟩ (by simp [spikeVetoHit, vetoHit])
    (by decide +kernel) (by decide +kernel)
  have hrun : (lopsided.convertMode1Hit 5 spikeVetoHit).value.map (fun out => (out.type, out.T))
      = some (.realSignal, some 8) := by decide +kernel
  rw [hvalue, Option.map_some, Option.some.injEq, Prod.mk.injEq] at hrun
  have hw : subtract spikeVetoHit.samples 0 ≠ [] := (subtract_ne_nil _ _).mpr (by simp [spikeVetoHit, vetoHit])
  have hhighest : (lopsided.setting 5 spikeVetoHit).IsHighest (subtract spikeVetoHit.samples 0) (5, 8) 6 :=
    Setting.isHighest_of_only hw (x := 9) (by decide +kernel) (by decide +kernel)
  obtain ⟨_, t, e, _, hT, _, he, _⟩ := hone hrun.1
  obtain ⟨_, rfl⟩ := he.unique hw hhighest
  rw [hrun.2, Option.some.injEq] at hT
  revert hT
  decide +kernel

end IntVetofa250Converter

end BdxReco
