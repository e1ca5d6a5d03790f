import BdxReco.Converters.CalorimeterHits

/-!
# `Converters.CalorimeterCharge` — the charge of the calorimeter hits

`Qraw` is a sum of samples, and a last step brings it to units of 4 ns so that digitisers with different sampling times
agree. The branches for noise and for a photoelectron at an edge of the waveform return before that step, and the one
for a good photoelectron divides the average a second time (`normalised_iff`).

With several photoelectrons every pulse has a window of its own. The code means to start a window where the one before
it ends, but the variable for that is never set (`countedOnce_iff`).
-/

namespace BdxReco

open Reading Fa250Converter

namespace Calorimeterfa250Converter.Setting

variable {g : Setting} {w : List ℚ} {out : CalorimeterSiPMHit}

/-! ## The charge of several photoelectrons -/

/-- `Tmax` of a pulse. -/
def tmaxOf (w : List ℚ) (p : Int × Int) : Int := ((getMaximum w p.1 p.2).value.map Prod.snd).getD 0

/-- The pulse and its window lie in the waveform. -/
def PheInside (g : Setting) (w : List ℚ) (p : Int × Int) : Prop :=
  p.2 < w.length ∧ ∀ t, Peak w p t → ¬ g.Overruns w t

/-- The sums over the windows of all accepted pulses, added up. -/
def IsPheCharge (g : Setting) (w : List ℚ) (S : ℚ) : Prop :=
  ∃ (ps : Finset (Int × Int)) (Tmax : Int × Int → Int), (∀ p, p ∈ ps ↔ g.Single w p) ∧ (∀ p ∈ ps, Peak w p (Tmax p)) ∧
    S = ∑ p ∈ ps, windowSum w (Tmax p - g.NSBs) (Tmax p + g.NSAs)

section Charge

variable {p : Int × Int} {t : Int} {s : Option ℚ × Option ℚ} {singles : List (Int × Int)}

theorem tmaxOf_eq (hp : Crossing w g.THR p) (hend : p.2 < w.length) (ht : Peak w p t) : tmaxOf w p = t := by
  unfold tmaxOf
  rw [value_getMaximum ((hp.peak_iff hend).mpr ht) (hp.nonneg_of_lt hend) hend]
  rfl

theorem peak_tmaxOf (hp : Crossing w g.THR p) (hend : p.2 < w.length) : Peak w p (tmaxOf w p) := by
  obtain ⟨t, ht⟩ := hp.exists_peak
  rw [tmaxOf_eq hp hend ht]
  exact ht

theorem afterPhe_snd (hsize : w.length < 2 ^ 31) (hp : Crossing w g.THR p) (hin : g.PheInside w p) :
    (g.afterPhe w s p).2 = s.2.map (· + windowSum w (tmaxOf w p - g.NSBs) (tmaxOf w p + g.NSAs)) := by
  have ht := peak_tmaxOf hp hin.1
  unfold afterPhe
  rw [value_getMaximum ((hp.peak_iff hin.1).mpr ht) (hp.nonneg_of_lt hin.1) hin.1]
  dsimp only
  rw [value_sumSamples w ((fits_pheWindow hsize _).mpr (hin.2 _ ht)), windowSum_pheWindow hsize (hin.2 _ ht)]
  cases s.2 <;> rfl

/-- A pulse that is not inside leaves the charge undetermined. -/
theorem afterPhe_snd_of_not (hsize : w.length < 2 ^ 31) (hp : Crossing w g.THR p) (hin : ¬ g.PheInside w p) :
    (g.afterPhe w s p).2 = none := by
  unfold afterPhe
  by_cases hend : p.2 < w.length
  · obtain ⟨t, ht⟩ := hp.exists_peak
    have hover : ¬ Fits w (g.pheWindow w.length t).1 (g.pheWindow w.length t).2 := by
      rw [fits_pheWindow hsize, not_not]
      by_contra hnot
      refine hin ⟨hend, ?_⟩
      intro t' ht'
      rw [FirstMaximum.unique ht' ht]
      exact hnot
    rw [value_getMaximum ((hp.peak_iff hend).mpr ht) (hp.nonneg_of_lt hend) hend]
    dsimp only
    rw [value_sumSamples_of_not w hover]
    cases s.2 <;> rfl
  · rw [value_getMaximum_of_not hp.lt.le (fun h => hend h.2)]

theorem afterPhe_snd_none (hs : s.2 = none) : (g.afterPhe w s p).2 = none := by
  unfold afterPhe
  cases (getMaximum w p.1 p.2).value with
  | none => rfl
  | some m =>
      dsimp only
      rw [hs]
      rfl

theorem foldl_afterPhe_none (singles : List (Int × Int)) (hs : s.2 = none) :
    (singles.foldl (g.afterPhe w) s).2 = none := by
  induction singles generalizing s with
  | nil => exact hs
  | cons p rest ih =>
      rw [List.foldl_cons]
      exact ih (afterPhe_snd_none hs)

/-- The loop adds the windows up when all of them are inside. -/
theorem foldl_afterPhe (hsize : w.length < 2 ^ 31) (hsingles : ∀ p ∈ singles, Crossing w g.THR p)
    (hin : ∀ p ∈ singles, g.PheInside w p) :
    (singles.foldl (g.afterPhe w) s).2 = s.2.map
      (· + (singles.map (fun p => windowSum w (tmaxOf w p - g.NSBs) (tmaxOf w p + g.NSAs))).sum) := by
  induction singles generalizing s with
  | nil => simp
  | cons p rest ih =>
      rw [List.forall_mem_cons] at hsingles hin
      rw [List.foldl_cons, ih hsingles.2 hin.2, afterPhe_snd hsize hsingles.1 hin.1, Option.map_map]
      cases s.2 with
      | none => rfl
      | some Qraw => simp

theorem foldl_afterPhe_of_not (hsize : w.length < 2 ^ 31) (hsingles : ∀ p ∈ singles, Crossing w g.THR p)
    (hin : ¬ ∀ p ∈ singles, g.PheInside w p) :
    (singles.foldl (g.afterPhe w) s).2 = none := by
  induction singles generalizing s with
  | nil => simp at hin
  | cons p rest ih =>
      rw [List.forall_mem_cons] at hsingles
      rw [List.foldl_cons]
      by_cases hp : g.PheInside w p
      · refine ih hsingles.2 ?_
        intro hrest
        exact hin (List.forall_mem_cons.mpr ⟨hp, hrest⟩)
      · exact foldl_afterPhe_none rest (afterPhe_snd_of_not hsize hsingles.1 hp)

theorem nodup_of_ordered (hordered : singles.Pairwise (fun p q => p.2 < q.2)) : singles.Nodup := by
  refine hordered.imp ?_
  intro p q hpq heq
  rw [heq] at hpq
  exact lt_irrefl _ hpq

/-- The same sum over the set of the pulses. -/
theorem sum_singles (hordered : singles.Pairwise (fun p q => p.2 < q.2)) (f : Int × Int → ℚ) :
    (singles.map f).sum = ∑ p ∈ singles.toFinset, f p :=
  (List.sum_toFinset f (nodup_of_ordered hordered)).symm

end Charge

/-! ## The normalisation of the charge -/

/-- `S` is the sum of the samples over the window of the branch. -/
def IsCharge (g : Setting) (w : List ℚ) : CaloHitType → ℚ → Prop
  | .noise, S => S = windowSum w 0 (g.headEnd w.length)
  | .onePhe, S => S = windowSum w 0 (g.headEnd w.length)
  | .goodOnePhe, S => S = windowSum w 0 (w.length - 1)
  | .realSignal, S => ∃ p, FirstOf (g.Signal w) p ∧ S = windowSum w (p.1 - g.NSBs) (p.1 - g.NSBs + g.NSAMPLESs)
  | .manyPhe, S => g.IsPheCharge w S

/-- **The charge is in units of 4 ns, and the average is the mean.** -/
def Normalised (g : Setting) (w : List ℚ) (mean : ℚ) (out : CalorimeterSiPMHit) : Prop :=
  (∃ S, g.IsCharge w out.type S ∧ out.Qraw = some (g.dT / 4 * S)) ∧ out.average = some mean

/-- **The waveforms for which they are.** -/
structure ScaleInside (g : Setting) (w : List ℚ) (mean : ℚ) : Prop where
  noise : g.NoSignal w → (∀ p, ¬ g.Single w p) → g.dT = 4 ∨ windowSum w 0 (g.headEnd w.length) = 0
  signal : ∀ p, FirstOf (g.Signal w) p → p.1 - g.NSBs < 2 ^ 31
  one : g.NoSignal w → (∃ p, g.OnlySingle w p) → ∀ e, FirstOf (Crossing w g.THR) e →
    e.2 < w.length ∧ ∀ t, Peak w e t →
      (g.AtEdge w.length t → g.dT = 4 ∨ windowSum w 0 (g.headEnd w.length) = 0) ∧
      (¬ g.AtEdge w.length t → mean = 0 ∨ w.length = 1)
  many : g.NoSignal w → g.Several w → ∀ p, g.Single w p → g.PheInside w p

section Normalisation

variable {mean : ℚ} {e : Int × Int} {singles : List (Int × Int)}

/-- A charge that has not been rescaled is right if the scale is 1, or there is no charge. -/
theorem unscaled_iff (g : Setting) (S : ℚ) : S = g.dT / 4 * S ↔ g.dT = 4 ∨ S = 0 := by
  constructor
  · intro h
    by_cases hS : S = 0
    · exact Or.inr hS
    · left
      have hone : g.dT / 4 = 1 := mul_right_cancel₀ hS (by rw [one_mul]; exact h.symm)
      linarith
  · rintro (h | h)
    · rw [h]
      ring
    · rw [h, mul_zero]

/-- An average that has been divided twice is right if it is 0, or there is one sample. -/
theorem twice_iff (hw : w ≠ []) (mean : ℚ) : mean / w.length = mean ↔ mean = 0 ∨ w.length = 1 := by
  have hpos : (w.length : ℚ) ≠ 0 := Nat.cast_ne_zero.mpr (List.length_pos_iff.mpr hw).ne'
  rw [div_eq_iff hpos]
  constructor
  · intro h
    by_cases hmean : mean = 0
    · exact Or.inl hmean
    · right
      have hone : (w.length : ℚ) = 1 := mul_left_cancel₀ hmean (by rw [mul_one]; exact h.symm)
      exact_mod_cast hone
  · rintro (h | h)
    · rw [h, zero_mul]
    · rw [h, Nat.cast_one, mul_one]

/-- The branches with the window at the start return before the last step. -/
theorem normalised_head {h : CalorimeterSiPMHit} (htype : h.type = .noise ∨ h.type = .onePhe)
    (hQraw : h.Qraw = some (windowSum w 0 (g.headEnd w.length))) (haverage : h.average = some mean) :
    g.Normalised w mean h ↔ g.dT = 4 ∨ windowSum w 0 (g.headEnd w.length) = 0 := by
  have hcharge : ∀ S, g.IsCharge w h.type S ↔ S = windowSum w 0 (g.headEnd w.length) := by
    intro S
    rcases htype with htype | htype
    · rw [htype]
      rfl
    · rw [htype]
      rfl
  unfold Normalised
  simp only [hcharge, exists_eq_left, hQraw, haverage, Option.some.injEq, and_true]
  exact unscaled_iff g _

theorem normalised_goodOnePhe (hw : w ≠ []) {h : CalorimeterSiPMHit} (htype : h.type = .goodOnePhe)
    (hQraw : h.Qraw = some (windowSum w 0 (w.length - 1) * (g.dT / 4))) (haverage : h.average = some (mean / w.length)) :
    g.Normalised w mean h ↔ mean = 0 ∨ w.length = 1 := by
  unfold Normalised
  rw [htype, haverage, Option.some.injEq, twice_iff hw]
  refine and_iff_right ⟨_, rfl, ?_⟩
  rw [hQraw, mul_comm]

theorem normalised_oneSingle (hw : w ≠ []) (hout : out.average = some mean) (he : Crossing w g.THR e) :
    (∃ h, (g.oneSingle w e out).value = some h ∧ g.Normalised w mean h) ↔
      e.2 < w.length ∧ ∀ t, Peak w e t →
        (g.AtEdge w.length t → g.dT = 4 ∨ windowSum w 0 (g.headEnd w.length) = 0) ∧
        (¬ g.AtEdge w.length t → mean = 0 ∨ w.length = 1) := by
  by_cases hend : e.2 < w.length
  · obtain ⟨t, ht⟩ := he.exists_peak
    -- the maximum is unique
    have hpeak : ∀ P : Int → Prop, (∀ t', Peak w e t' → P t') ↔ P t := by
      intro P
      constructor
      · exact fun h => h t ht
      · intro h t' ht'
        rw [FirstMaximum.unique ht' ht]
        exact h
    rw [hpeak]
    by_cases hedge : g.AtEdge w.length t
    · rw [value_oneSingle_edge he hend ht hedge]
      simp only [Option.some.injEq, exists_eq_left', hend, hedge, not_true_eq_false, false_implies, and_true, true_and,
        true_implies]
      exact normalised_head (Or.inr rfl) rfl hout
    · rw [value_oneSingle_good he hend ht hedge]
      simp only [Option.some.injEq, exists_eq_left', hend, hedge, true_and, not_false_eq_true, true_implies,
        false_implies]
      -- rescaled as it should be, but the average is not the mean
      refine normalised_goodOnePhe hw rfl rfl ?_
      show out.average.map _ = _
      rw [hout]
      rfl
  · rw [value_oneSingle_of_not he hend]
    simp [hend]

theorem isPheCharge_singles (hordered : singles.Pairwise (fun p q => p.2 < q.2))
    (hmem : ∀ q, q ∈ singles ↔ g.Single w q) (hin : ∀ q ∈ singles, g.PheInside w q) :
    g.IsPheCharge w (singles.map (fun p => windowSum w (tmaxOf w p - g.NSBs) (tmaxOf w p + g.NSAs))).sum := by
  refine ⟨singles.toFinset, tmaxOf w, ?_, ?_, sum_singles hordered _⟩
  · intro p
    rw [List.mem_toFinset]
    exact hmem p
  · intro p hp
    rw [List.mem_toFinset] at hp
    exact peak_tmaxOf ((hmem p).mp hp).1 (hin p hp).1

theorem normalised_manyPhe (hsize : w.length < 2 ^ 31) (hout : out.average = some mean)
    (hordered : singles.Pairwise (fun p q => p.2 < q.2)) (hmem : ∀ q, q ∈ singles ↔ g.Single w q) (first : Int) :
    (∃ h, (g.manyPhe w singles first out).value = some h ∧ g.Normalised w mean h) ↔
      ∀ q, g.Single w q → g.PheInside w q := by
  have hcrossing : ∀ q ∈ singles, Crossing w g.THR q := fun q hq => ((hmem q).mp hq).1
  have hall : (∀ q, g.Single w q → g.PheInside w q) ↔ ∀ q ∈ singles, g.PheInside w q := by simp only [hmem]
  rw [value_manyPhe, hall]
  simp only [Option.some.injEq, exists_eq_left']
  by_cases hin : ∀ q ∈ singles, g.PheInside w q
  · refine iff_of_true ⟨⟨_, isPheCharge_singles hordered hmem hin, ?_⟩, hout⟩ hin
    show Option.map _ (singles.foldl (g.afterPhe w) (some 0, some 0)).2 = _
    rw [foldl_afterPhe hsize hcrossing hin]
    simp [mul_comm]
  · refine iff_of_false ?_ hin
    rintro ⟨⟨S, _, hQraw⟩, _⟩
    have hnone : Option.map (· * (g.dT / 4)) (singles.foldl (g.afterPhe w) (some 0, some 0)).2 = some (g.dT / 4 * S) :=
      hQraw
    rw [foldl_afterPhe_of_not hsize hcrossing hin] at hnone
    simp at hnone

/-- A signal is rescaled, and its average is left alone. -/
theorem normalised_realSignal (hsize : w.length < 2 ^ 31) (hout : out.average = some mean)
    (he : FirstOf (g.Signal w) e) :
    (∃ h, (g.realSignal w e.1 out).value = some h ∧ g.Normalised w mean h) ↔ e.1 - g.NSBs < 2 ^ 31 := by
  rw [value_realSignal]
  simp only [Option.some.injEq, exists_eq_left']
  by_cases hfits : e.1 - g.NSBs < 2 ^ 31
  · refine iff_of_true ⟨⟨_, ⟨e, he, rfl⟩, ?_⟩, hout⟩ hfits
    show Option.map _ (sumSamples w _ _).value = _
    rw [value_sumSamples w ((fits_signalWindow hsize e.1).mpr hfits), windowSum_signalWindow hsize hfits, Option.map_some,
      mul_comm]
  · refine iff_of_false ?_ hfits
    rintro ⟨⟨S, _, hQraw⟩, _⟩
    have hnone : Option.map (· * (g.dT / 4))
        (sumSamples w (g.signalWindow w.length e.1).1 (g.signalWindow w.length e.1).2).value = some (g.dT / 4 * S) :=
      hQraw
    rw [value_sumSamples_of_not w (fun h => hfits ((fits_signalWindow hsize e.1).mp h))] at hnone
    simp at hnone

/-- **Charge and average in every branch.** -/
theorem normalised_analyse (hsize : w.length < 2 ^ 31) (hw : w ≠ []) (hout : out.average = some mean) :
    (∃ h, (g.analyse w (crossingTimes w g.THR) out).value = some h ∧ g.Normalised w mean h) ↔ g.ScaleInside w mean := by
  have hcounted : (g.counted w (crossingTimes w g.THR) out).average = some mean := hout
  rw [analyse_iff hw out (X := fun x => ∃ h, x.value = some h ∧ g.Normalised w mean h)
    (N := g.dT = 4 ∨ windowSum w 0 (g.headEnd w.length) = 0) (M := fun _ => True) ?_
    (fun p hp => normalised_realSignal hsize hcounted hp) (fun p e _ _ he => normalised_oneSingle hw hcounted he.1)
    (fun p singles _ _ hordered hmem =>
      (normalised_manyPhe hsize hcounted hordered hmem p.1).trans (and_iff_left trivial).symm)]
  · constructor
    · rintro ⟨hnoise, hsignal, hone, hmany⟩
      exact ⟨hnoise, hsignal, fun hno ⟨p, hp⟩ => hone hno p hp, fun hno hseveral => (hmany hno hseveral).1⟩
    · rintro ⟨hnoise, hsignal, hone, hmany⟩
      exact ⟨hnoise, hsignal, fun hno p hp => hone hno ⟨p, hp⟩,
        fun hno hseveral => ⟨hmany hno hseveral, fun _ _ => trivial⟩⟩
  · rw [value_noise]
    simp only [Option.some.injEq, exists_eq_left']
    exact normalised_head (Or.inl rfl) rfl hcounted

end Normalisation

/-! ## Samples in two windows -/

/-- `i` is summed for the photoelectron with its maximum at `t`. -/
def InPheWindow (g : Setting) (w : List ℚ) (t i : Int) : Prop :=
  (g.pheWindow w.length t).1 ≤ i ∧ i ≤ (g.pheWindow w.length t).2

/-- The windows that are summed have no sample in common. -/
def WindowsDisjoint (g : Setting) (w : List ℚ) : Prop :=
  ∀ p q s t, g.Single w p → g.Single w q → p ≠ q → Peak w p s → Peak w q t →
    ∀ i, ¬ (g.InPheWindow w s i ∧ g.InPheWindow w t i)

open Classical in
/-- The samples in some window, each of them once. -/
noncomputable def unionSum (g : Setting) (w : List ℚ) : ℚ :=
  ∑ i ∈ (Finset.range w.length).filter (fun i : Nat =>
    ∃ p t, g.Single w p ∧ Peak w p t ∧ t - g.NSBs ≤ (i : Int) ∧ (i : Int) ≤ t + g.NSAs), sample w i

/-- **No sample is counted twice.** -/
def CountedOnce (g : Setting) (w : List ℚ) (out : CalorimeterSiPMHit) : Prop :=
  g.WindowsDisjoint w ∧ out.Qraw = some (g.dT / 4 * g.unionSum w)

/-- The maxima are further apart than the windows are wide, or a window is empty. -/
def Apart (g : Setting) (w : List ℚ) (s t : Int) : Prop :=
  s + g.NSAs < t - g.NSBs ∨ w.length ≤ t - g.NSBs ∨ s + g.NSAs < 0

/-- **The pulses for which no sample is.** -/
structure WindowsInside (g : Setting) (w : List ℚ) : Prop where
  inside : ∀ p, g.Single w p → g.PheInside w p
  apart : ∀ p q s t, g.Single w p → g.Single w q → p.2 < q.2 → Peak w p s → Peak w q t → g.Apart w s t

section Twice

variable {p q : Int × Int} {s t : Int} {singles : List (Int × Int)}

/-- The maxima come in the order of the pulses. -/
theorem peak_lt (hp : Crossing w g.THR p) (hq : Crossing w g.THR q) (hend : q.2 < w.length) (hpq : p.2 < q.2)
    (hs : Peak w p s) (ht : Peak w q t) : s < t := by
  have hbetween := hp.lt_of_lt hq hpq (hq.nonneg_of_lt hend)
  have hle := hs.le
  have hge := ht.ge
  omega

/-- A window that does not overrun the waveform holds the samples around the maximum. -/
theorem inPheWindow_iff (hsize : w.length < 2 ^ 31) (ht : ¬ g.Overruns w t) (i : Int) :
    g.InPheWindow w t i ↔ (0 ≤ i ∧ i < w.length) ∧ t - g.NSBs ≤ i ∧ i ≤ t + g.NSAs := by
  unfold Overruns at ht
  unfold InPheWindow pheWindow
  dsimp only
  rw [asInt_eq, asInt_eq]
  split_ifs <;> omega

/-- Two windows in the waveform overlap unless they are apart. -/
theorem disjoint_iff_apart (hsize : w.length < 2 ^ 31) (hw : w ≠ []) (hst : s < t) (hs : ¬ g.Overruns w s)
    (ht : ¬ g.Overruns w t) : (∀ i, ¬ (g.InPheWindow w s i ∧ g.InPheWindow w t i)) ↔ g.Apart w s t := by
  have hpos := List.length_pos_iff.mpr hw
  simp only [inPheWindow_iff hsize hs, inPheWindow_iff hsize ht]
  unfold Apart
  constructor
  · intro h
    have hmax := h (max (t - g.NSBs) 0)
    omega
  · intro hapart i hi
    omega

/-- The windows of two pulses, as sets of samples. -/
theorem windows_disjoint (hapart : g.Apart w s t) :
    Disjoint ((Finset.range w.length).filter (fun i : Nat => s - g.NSBs ≤ (i : Int) ∧ (i : Int) ≤ s + g.NSAs))
      ((Finset.range w.length).filter (fun i : Nat => t - g.NSBs ≤ (i : Int) ∧ (i : Int) ≤ t + g.NSAs)) := by
  rw [Finset.disjoint_filter]
  intro i hi hs ht
  have hlt := Finset.mem_range.mp hi
  unfold Apart at hapart
  omega

theorem unionSum_eq (hordered : singles.Pairwise (fun p q => p.2 < q.2)) (hmem : ∀ q, q ∈ singles ↔ g.Single w q)
    (hinside : g.WindowsInside w) :
    g.unionSum w = (singles.map (fun p => windowSum w (tmaxOf w p - g.NSBs) (tmaxOf w p + g.NSAs))).sum := by
  have hpeak : ∀ p, g.Single w p → Peak w p (tmaxOf w p) := fun p hp => peak_tmaxOf hp.1 (hinside.inside p hp).1
  have hdisjoint : (singles.toFinset : Set (Int × Int)).PairwiseDisjoint (fun p =>
      (Finset.range w.length).filter (fun i : Nat =>
        tmaxOf w p - g.NSBs ≤ (i : Int) ∧ (i : Int) ≤ tmaxOf w p + g.NSAs)) := by
    intro p hp q hq hne
    have hp' := (hmem p).mp (List.mem_toFinset.mp hp)
    have hq' := (hmem q).mp (List.mem_toFinset.mp hq)
    -- different members of an ordered list have different ends
    have hends : p.2 ≠ q.2 := by
      have hsymm : Std.Symm (fun p q : Int × Int => p.2 ≠ q.2) := ⟨fun _ _ h => h.symm⟩
      exact (hordered.imp ne_of_lt).forall ((hmem p).mpr hp') ((hmem q).mpr hq') hne
    rcases lt_or_gt_of_ne hends with hlt | hgt
    · exact windows_disjoint (hinside.apart p q _ _ hp' hq' hlt (hpeak p hp') (hpeak q hq'))
    · exact (windows_disjoint (hinside.apart q p _ _ hq' hp' hgt (hpeak q hq') (hpeak p hp'))).symm
  rw [sum_singles hordered]
  unfold windowSum unionSum
  -- disjoint windows: the sum of the sums is the sum over the union
  rw [← Finset.sum_biUnion hdisjoint]
  refine Finset.sum_congr ?_ (fun _ _ => rfl)
  ext i
  simp only [Finset.mem_filter, Finset.mem_biUnion, List.mem_toFinset, hmem]
  constructor
  · rintro ⟨hi, p, t, hp, ht, hwindow⟩
    rw [FirstMaximum.unique ht (hpeak p hp)] at hwindow
    exact ⟨p, hp, hi, hwindow⟩
  · rintro ⟨p, hp, hi, hwindow⟩
    exact ⟨hi, p, tmaxOf w p, hp, hpeak p hp, hwindow⟩

theorem windowsDisjoint_of_inside (hsize : w.length < 2 ^ 31) (hw : w ≠ []) (hinside : g.WindowsInside w) :
    g.WindowsDisjoint w := by
  intro p q s t hp hq hne hs ht
  have hends : p.2 ≠ q.2 := fun heq => hne (hp.1.eq_of_end hq.1 heq hw)
  obtain ⟨hpend, hps⟩ := hinside.inside p hp
  obtain ⟨hqend, hqt⟩ := hinside.inside q hq
  rcases lt_or_gt_of_ne hends with hlt | hgt
  · have hst := peak_lt hp.1 hq.1 hqend hlt hs ht
    exact (disjoint_iff_apart hsize hw hst (hps s hs) (hqt t ht)).mpr (hinside.apart p q s t hp hq hlt hs ht)
  · have hts := peak_lt hq.1 hp.1 hpend hgt ht hs
    intro i hi
    exact (disjoint_iff_apart hsize hw hts (hqt t ht) (hps s hs)).mpr (hinside.apart q p t s hq hp hgt ht hs) i hi.symm

/-- **The charge of several photoelectrons.** -/
theorem countedOnce_manyPhe (hsize : w.length < 2 ^ 31) (hw : w ≠ [])
    (hordered : singles.Pairwise (fun p q => p.2 < q.2)) (hmem : ∀ q, q ∈ singles ↔ g.Single w q) (first : Int) :
    (∃ h, (g.manyPhe w singles first out).value = some h ∧ g.CountedOnce w h) ↔ g.WindowsInside w := by
  have hcrossing : ∀ q ∈ singles, Crossing w g.THR q := fun q hq => ((hmem q).mp hq).1
  rw [value_manyPhe]
  simp only [Option.some.injEq, exists_eq_left']
  constructor
  · rintro ⟨hdisjoint, hQraw⟩
    have hsum : Option.map (· * (g.dT / 4)) (singles.foldl (g.afterPhe w) (some 0, some 0)).2
        = some (g.dT / 4 * g.unionSum w) := hQraw
    -- one window outside leaves the whole charge undetermined
    have hin : ∀ q ∈ singles, g.PheInside w q := by
      by_contra hnot
      rw [foldl_afterPhe_of_not hsize hcrossing hnot] at hsum
      simp at hsum
    have hin' : ∀ q, g.Single w q → g.PheInside w q := fun q hq => hin q ((hmem q).mpr hq)
    refine ⟨hin', ?_⟩
    intro p q s t hp hq hpq hs ht
    have hst := peak_lt hp.1 hq.1 (hin' q hq).1 hpq hs ht
    have hne : p ≠ q := by
      intro heq
      rw [heq] at hpq
      exact lt_irrefl _ hpq
    exact (disjoint_iff_apart hsize hw hst ((hin' p hp).2 s hs) ((hin' q hq).2 t ht)).mp
      (hdisjoint p q s t hp hq hne hs ht)
  · intro hinside
    refine ⟨windowsDisjoint_of_inside hsize hw hinside, ?_⟩
    show Option.map _ (singles.foldl (g.afterPhe w) (some 0, some 0)).2 = _
    rw [foldl_afterPhe hsize hcrossing (fun q hq => hinside.inside q ((hmem q).mp hq)), unionSum_eq hordered hmem hinside]
    simp [mul_comm]

end Twice

end Calorimeterfa250Converter.Setting

namespace Calorimeterfa250Converter

/-- **Exactly when charge and average have the documented normalisation.** -/
theorem normalised_iff (c : Calorimeterfa250Converter) (calib : ℚ × ℚ × ℚ) (input : Fa250Mode1CalibPedSubHit)
    (hsize : input.samples.length < 2 ^ 31) :
    (∃ out, (c.convertMode1Hit calib input).value = some out ∧
        (c.setting calib input).Normalised (c.waveform input) (meanOf input.samples) out) ↔
      input.samples ≠ [] ∧ (c.setting calib input).NPEDs ≤ input.samples.length ∧ (c.setting calib input).NPEDs ≠ 0 ∧
      (c.setting calib input).ScaleInside (c.waveform input) (meanOf input.samples) := by
  by_cases hsamples : input.samples = []
  · simp [convertMode1Hit_empty hsamples, hsamples]
  · by_cases hshort : (c.setting calib input).NPEDs ≤ input.samples.length
    · by_cases hzero : (c.setting calib input).NPEDs = 0
      · rw [(convertMode1Hit_nan hsamples hzero).1]
        simp [Setting.Normalised, hzero]
      · rw [(convertMode1Hit_eq hsamples hzero hshort).1,
          Setting.normalised_analyse (g := c.setting calib input) (by rwa [length_waveform])
            (waveform_ne_nil hsamples) rfl]
        simp [hsamples, hshort, hzero]
    · simp [hshort, (convertMode1Hit_long hshort).1]

/-- A quiet waveform. -/
theorem normalised_quiet :
    (hitOf [1, 0, 1, 2]).samples.length < 2 ^ 31 ∧
      ((∃ out, (narrow.convertMode1Hit (5, 4, 100) (hitOf [1, 0, 1, 2])).value = some out ∧
          (narrow.setting (5, 4, 100) (hitOf [1, 0, 1, 2])).Normalised (narrow.waveform (hitOf [1, 0, 1, 2]))
            (meanOf [1, 0, 1, 2]) out) ↔
        (hitOf [1, 0, 1, 2]).samples ≠ [] ∧ (narrow.setting (5, 4, 100) (hitOf [1, 0, 1, 2])).NPEDs ≤ 4 ∧
        (narrow.setting (5, 4, 100) (hitOf [1, 0, 1, 2])).NPEDs ≠ 0 ∧
        (narrow.setting (5, 4, 100) (hitOf [1, 0, 1, 2])).ScaleInside (narrow.waveform (hitOf [1, 0, 1, 2]))
          (meanOf [1, 0, 1, 2])) := by
  have hsize : (hitOf [1, 0, 1, 2]).samples.length < 2 ^ 31 := by decide
  exact ⟨hsize, normalised_iff narrow (5, 4, 100) (hitOf [1, 0, 1, 2]) hsize⟩

/-- Noise sampled every 2 ns is not rescaled. -/
theorem noise_not_rescaled :
    ¬ ∀ (c : Calorimeterfa250Converter) (calib : ℚ × ℚ × ℚ) (input : Fa250Mode1CalibPedSubHit),
      input.samples ≠ [] → 0 < input.dT →
      ∃ out, (c.convertMode1Hit calib input).value = some out ∧
        (c.setting calib input).Normalised (c.waveform input) (meanOf input.samples) out := by
  intro h
  obtain ⟨out, hvalue, ⟨S, hS, hQraw⟩, _⟩ := h narrow (5, 4, 100) { hitOf [0, 0, 1, 2, 0, 0] with dT := 2 }
    (by simp [hitOf]) (by decide +kernel)
  have hrun : ((narrow.convertMode1Hit (5, 4, 100) { hitOf [0, 0, 1, 2, 0, 0] with dT := 2 }).value.map
      (fun out => (out.type, out.Qraw))) = some (.noise, some 3) := by decide +kernel
  rw [hvalue, Option.map_some, Option.some.injEq, Prod.mk.injEq] at hrun
  rw [hrun.1] at hS
  rw [hrun.2, Option.some.injEq, show S = 3 from hS.trans (by decide +kernel)] at hQraw
  revert hQraw
  decide +kernel

/-- **Exactly when no sample is counted twice**, for several photoelectrons and no signal. -/
theorem countedOnce_iff (c : Calorimeterfa250Converter) (calib : ℚ × ℚ × ℚ) (input : Fa250Mode1CalibPedSubHit)
    (hsize : input.samples.length < 2 ^ 31) (hno : (c.setting calib input).NoSignal (c.waveform input))
    (hseveral : (c.setting calib input).Several (c.waveform input)) :
    (∃ out, (c.convertMode1Hit calib input).value = some out ∧
        (c.setting calib input).CountedOnce (c.waveform input) out) ↔
      (c.setting calib input).NPEDs ≤ input.samples.length ∧ (c.setting calib input).NPEDs ≠ 0 ∧
      (c.setting calib input).WindowsInside (c.waveform input) := by
  have hsamples : input.samples ≠ [] := by
    intro hempty
    exact hseveral.ne_nil (List.map_eq_nil_iff.mpr hempty)
  by_cases hshort : (c.setting calib input).NPEDs ≤ input.samples.length
  · by_cases hzero : (c.setting calib input).NPEDs = 0
    · rw [(convertMode1Hit_nan hsamples hzero).1]
      simp [Setting.CountedOnce, hzero]
    · have hw := waveform_ne_nil (c := c) hsamples
      rw [(convertMode1Hit_eq hsamples hzero hshort).1]
      rcases Setting.analyse_cases (g := c.setting calib input) hw (c.pedestalHit input) with ⟨_, hnone, _⟩ | ⟨p, hp, _⟩ |
        ⟨p, e, _, honly, _⟩ | ⟨p, singles, _, _, _, hordered, hmem, h⟩
      · obtain ⟨p, _, hp, _⟩ := hseveral
        exact absurd hp (hnone p)
      · exact (hno.not_firstOf hp).elim
      · exact absurd hseveral honly.not_several
      · rw [h, Setting.countedOnce_manyPhe (by rwa [length_waveform]) hw hordered hmem]
        simp [hshort, hzero]
  · simp [hshort, (convertMode1Hit_long hshort).1]

/-- Two pulses four samples apart. -/
def twoHit : Fa250Mode1CalibPedSubHit := hitOf [0, 0, 7, 8, 0, 0, 0, 8, 7, 0, 0]

theorem several_twoHit : (narrow.setting (5, 4, 100) twoHit).Several (narrow.waveform twoHit) := by
  have hw : narrow.waveform twoHit ≠ [] := waveform_ne_nil (by simp [twoHit, hitOf])
  exact ⟨(2, 4), (7, 9), (Setting.mem_singles hw _).mp (by decide +kernel), (Setting.mem_singles hw _).mp (by decide +kernel),
    by decide⟩

theorem countedOnce_twoHit :
    twoHit.samples.length < 2 ^ 31 ∧ (narrow.setting (5, 4, 100) twoHit).NoSignal (narrow.waveform twoHit) ∧
      (narrow.setting (5, 4, 100) twoHit).Several (narrow.waveform twoHit) ∧
      ((∃ out, (narrow.convertMode1Hit (5, 4, 100) twoHit).value = some out ∧
          (narrow.setting (5, 4, 100) twoHit).CountedOnce (narrow.waveform twoHit) out) ↔
        (narrow.setting (5, 4, 100) twoHit).NPEDs ≤ 11 ∧ (narrow.setting (5, 4, 100) twoHit).NPEDs ≠ 0 ∧
        (narrow.setting (5, 4, 100) twoHit).WindowsInside (narrow.waveform twoHit)) := by
  have hno : (narrow.setting (5, 4, 100) twoHit).NoSignal (narrow.waveform twoHit) :=
    Setting.noSignal_of_nil (waveform_ne_nil (by simp [twoHit, hitOf])) (by decide +kernel)
  have hsize : twoHit.samples.length < 2 ^ 31 := by decide
  exact ⟨hsize, hno, several_twoHit, countedOnce_iff narrow (5, 4, 100) twoHit hsize hno several_twoHit⟩

/-- Two pulses two samples apart. -/
def closeHit : Fa250Mode1CalibPedSubHit := hitOf [0, 0, 7, 8, 0, 8, 7, 0, 0]

/-- The sample between them is summed for both. -/
theorem sample_counted_twice :
    ¬ ∀ (c : Calorimeterfa250Converter) (calib : ℚ × ℚ × ℚ) (input : Fa250Mode1CalibPedSubHit),
      (c.setting calib input).NoSignal (c.waveform input) → (c.setting calib input).Several (c.waveform input) →
      ∃ out, (c.convertMode1Hit calib input).value = some out ∧
        (c.setting calib input).CountedOnce (c.waveform input) out := by
  intro h
  have hw : narrow.waveform closeHit ≠ [] := waveform_ne_nil (by simp [closeHit, hitOf])
  have hp : (narrow.setting (5, 4, 100) closeHit).Single (narrow.waveform closeHit) (2, 4) :=
    (Setting.mem_singles hw _).mp (by decide +kernel)
  have hq : (narrow.setting (5, 4, 100) closeHit).Single (narrow.waveform closeHit) (5, 7) :=
    (Setting.mem_singles hw _).mp (by decide +kernel)
  have hs : Peak (narrow.waveform closeHit) (2, 4) 3 := by
    have hpeak := Setting.peak_tmaxOf hp.1 (by decide +kernel)
    rwa [show Setting.tmaxOf (narrow.waveform closeHit) (2, 4) = 3 by decide +kernel] at hpeak
  have ht : Peak (narrow.waveform closeHit) (5, 7) 5 := by
    have hpeak := Setting.peak_tmaxOf hq.1 (by decide +kernel)
    rwa [show Setting.tmaxOf (narrow.waveform closeHit) (5, 7) = 5 by decide +kernel] at hpeak
  obtain ⟨out, _, hdisjoint, _⟩ := h narrow (5, 4, 100) closeHit (Setting.noSignal_of_nil hw (by decide +kernel))
    ⟨_, _, hp, hq, by decide⟩
  refine hdisjoint _ _ _ _ hp hq (by decide) hs ht 4 ?_
  unfold Setting.InPheWindow
  decide +kernel

end Calorimeterfa250Converter

end BdxReco
