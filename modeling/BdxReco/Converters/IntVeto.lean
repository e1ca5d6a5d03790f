import BdxReco.Converters.Factories
import BdxReco.Converters.Waveform

/-!
# `Converters.IntVeto` — the waveforms of the inner veto

`IntVetofa250Converter::convertMode1Hit` first refines the pedestal: it looks at `NRMSCHECKS` windows of the waveform
and takes the mean of the first one with a small RMS. Then it finds the pulses and describes the highest one.

Windows are given in ns and converted to samples with the sampling time of the hit; a `double` that does not fit into an
`int` becomes the smallest one. Near the end of the waveform a
window is moved back by its length in ns (`windows_inside_iff`), and the cut on the RMS uses a member of the converter
that the factory does not hand on (`honoursScale_iff`).
-/

namespace BdxReco

open Reading Fa250Converter

/-- `IntVetoSiPMHit::hit_type`. -/
inductive IntVetoHitType where
  | noise
  | realSignal
  deriving DecidableEq, Repr

/-- The members of `IntVetoSiPMHit` that `convertMode1Hit` sets; `none` is a member that is not set, or that depends on
    something that is not set. -/
structure IntVetoWaveformHit where
  Qraw : Option ℚ := none
  T : Option ℚ := none
  Araw : Option ℚ := none
  Ttot : Option ℚ := none
  average : Option ℚ := none
  pedMean : Option ℚ := none
  pedRMS : Option ℚ := none
  nSingles : Nat := 0
  RMSflag : Bool := false
  type : IntVetoHitType := .noise
  deriving DecidableEq, Repr

/-! ## `convertMode1Hit` -/

namespace IntVetofa250Converter

def NRMSCHECKS : Nat := 10

/-- The local copies of the parameters: times in samples, and the constants of the channel. -/
structure Setting where
  thr : ℚ
  minTot : ℚ
  TOTTHR : ℚ
  RMSTHRscale : ℚ
  dT : ℚ
  NPED : Int
  NPEDs : Int
  NSBs : Int
  NSAs : Int

/-- `ampl` is what `m_thrCalib` has for the channel. The converter is made by `new IntVetofa250Converter()` and has no
    constructor of its own, so that a member nobody sets is 0. -/
def setting (c : IntVetofa250Converter) (ampl : ℚ) (input : Fa250Mode1CalibPedSubHit) : Setting where
  thr := Binary64.mul ampl (c.thr.getD 0)
  minTot := c.minTot.getD 0
  TOTTHR := c.TOTTHR.getD 0
  RMSTHRscale := c.RMSTHRscale.getD 0
  dT := input.dT
  NPED := c.NPED.getD 0
  NPEDs := inSamples (c.NPED.getD 0) input.dT
  NSBs := inSamples (c.NSB.getD 0) input.dT
  NSAs := inSamples (c.NSA.getD 0) input.dT

/-- What the search for a pedestal leaves. -/
structure Refined where
  found : Bool
  ped : ℚ
  pedRMS : Option ℚ
  deriving DecidableEq, Repr

namespace Setting

/-- `istart`. -/
def checkStart (g : Setting) (size icheck : Nat) : Int :=
  let istart : Int := icheck * (size / NRMSCHECKS : Nat)
  -- the window is moved back by a length in ns
  if istart + g.NPEDs ≥ size then size - g.NPED - 1 else istart

/-- Mean and RMS of a window. -/
def check (g : Setting) (samples : List ℚ) (icheck : Nat) : Reading (Option Pedestal) :=
  pedestal samples (g.checkStart samples.length icheck) g.NPEDs

/-- The loop over the windows, up to the first one with a small RMS. -/
def search (g : Setting) (samples : List ℚ) (cut : ℚ) : Option ℚ → List Nat → Reading Refined
  | pedRMS, [] => pure { found := false, ped := 0, pedRMS }
  | _, icheck :: rest => do
    let ped ← g.check samples icheck
    match ped with
    -- a comparison with a value that is not a number is false
    | none => g.search samples cut none rest
    | some ped =>
      if rmsAtMost ped.rms cut then pure { found := true, ped := ped.mean, pedRMS := ped.rms }
      else g.search samples cut ped.rms rest

/-- A pulse long enough, or cut by an end of the waveform. -/
def LongEnough (g : Setting) (size : Nat) (p : Int × Int) : Prop :=
  ((p.2 - p.1 : Int) : ℚ) > Binary64.div g.minTot g.dT ∨ p.2 = size ∨ p.1 = 0

instance (g : Setting) (size : Nat) (p : Int × Int) : Decidable (g.LongEnough size p) :=
  inferInstanceAs (Decidable (_ ∨ _))

/-- The test for an accepted pulse. -/
def isSingle (g : Setting) (size : Nat) (p : Int × Int) : Bool :=
  decide (0 ≤ p.2 - p.1 ∧ g.LongEnough size p)

/-- `ixmin` and `ixmax`. -/
def clip (size : Nat) (p : Int × Int) : Int × Int :=
  (if p.1 < 0 then 0 else p.1, if p.2 ≥ size then size - 1 else p.2)

/-- `Araw` and `imax` after the loop over the accepted pulses; `none` is an `imax` that has not been set. -/
def highest (w : List ℚ) (singles : List (Int × Int)) : Reading (ℚ × Option (Int × Int)) :=
  singles.foldlM (fun s p => do
    let (max, _) ← getMaximum w (clip w.length p).1 (clip w.length p).2
    pure (if s.1 < max then (max, some p) else s)) (-9999, none)

/-- `xmin` and `xmax` of the charge. -/
def chargeWindow (g : Setting) (size : Nat) (Tmax : Int) : Int × Int :=
  let xmin := Tmax - g.NSAs
  let xmax := Tmax + g.NSBs
  (asInt (if xmin < 0 then 0 else xmin), asInt (if xmax ≥ size then size - 1 else xmax))

/-- `Qraw` of the highest pulse. -/
def charge (g : Setting) (w : List ℚ) (imax : Option (Int × Int)) : Reading ℚ :=
  match imax with
  | none => undetermined
  | some p => do
    let (_, Tmax) ← getMaximum w (clip w.length p).1 (clip w.length p).2
    let window := g.chargeWindow w.length Tmax
    sumSamples w window.1 window.2

def noise (g : Setting) (w : List ℚ) (out : IntVetoWaveformHit) : Reading IntVetoWaveformHit := do
  let N := asInt (if g.NSAs + g.NSBs > w.length then (w.length : Int) else g.NSAs + g.NSBs)
  let Qraw ← (sumSamples w 0 ((N - 1).bmod (2 ^ 32))).settled
  let (Araw, _) ← maximumOfAll w
  pure { out with type := .noise, Qraw, Araw := some Araw, T := some (-1) }

def realSignal (g : Setting) (w : List ℚ) (singles : List (Int × Int)) (TOT : ℚ) (out : IntVetoWaveformHit) :
    Reading IntVetoWaveformHit := do
  let (Araw, imax) ← highest w singles
  let Qraw ← (g.charge w imax).settled
  -- the time is that of the maximum of the whole waveform
  let (_, Tmax) ← maximumOfAll w
  pure { out with type := .realSignal, Araw := some Araw, Qraw, T := some (Tmax * g.dT), Ttot := some TOT }

/-- Everything after the pedestal; `TOT` is what the loop over the samples has left in `m_TOT`. -/
def analyseWith (g : Setting) (w : List ℚ) (TOT : ℚ) (out : IntVetoWaveformHit) : Reading IntVetoWaveformHit := do
  let sum ← sumAll w
  let _ ← loop w (fun _ _ _ => ()) () (scanReads w.length)
  let singles := (crossingTimes w g.thr g.TOTTHR g.dT).filter (g.isSingle w.length)
  let out := { out with average := some (sum / w.length), nSingles := singles.length }
  match singles with
  | [] => g.noise w out
  | p :: rest => g.realSignal w (p :: rest) TOT out

/-- Everything after the pedestal, with an exact time over threshold. -/
def analyse (g : Setting) (w : List ℚ) (out : IntVetoWaveformHit) : Reading IntVetoWaveformHit :=
  g.analyseWith w (scan w g.thr g.TOTTHR g.dT).tot out

end Setting

/-- The refinement of the pedestal. -/
def refinePedestal (c : IntVetofa250Converter) (ampl : ℚ) (input : Fa250Mode1CalibPedSubHit) : Reading Refined :=
  let g := c.setting ampl input
  g.search input.samples (Binary64.mul input.RMS g.RMSTHRscale) none (List.range NRMSCHECKS)

/-- `convertMode1Hit`. -/
def convertMode1Hit (c : IntVetofa250Converter) (ampl : ℚ) (input : Fa250Mode1CalibPedSubHit) :
    Reading IntVetoWaveformHit := do
  let r ← c.refinePedestal ampl input
  (c.setting ampl input).analyse (subtract input.samples r.ped)
    { pedMean := some r.ped, pedRMS := r.pedRMS, RMSflag := r.found }

end IntVetofa250Converter

/-! ## The windows of the pedestal -/

namespace IntVetofa250Converter.Setting

variable {g : Setting} {samples : List ℚ} {cut : ℚ}

/-- The first sample of the last window, before it is moved. -/
def lastStart (size : Nat) : Int := (NRMSCHECKS - 1 : Nat) * (size / NRMSCHECKS : Nat)

theorem within_check (k : Nat) :
    (g.check samples k).Within samples.length ↔
      Fits samples (g.checkStart samples.length k) (g.checkStart samples.length k + g.NPEDs - 1) := within_pedestal

/-- The loop reads no more than the windows. -/
theorem within_search {l : List Nat} (h : ∀ k ∈ l, (g.check samples k).Within samples.length) (pedRMS : Option ℚ) :
    (g.search samples cut pedRMS l).Within samples.length := by
  induction l generalizing pedRMS with
  | nil => exact within_pure _ _
  | cons k rest ih =>
      rw [List.forall_mem_cons] at h
      unfold search
      rw [within_bind]
      refine ⟨h.1, ?_⟩
      intro ped _
      cases ped with
      | none => exact ih h.2 none
      | some ped =>
          dsimp only
          split
          · exact within_pure _ _
          · exact ih h.2 _

/-- A window that is not moved fits. A moved one starts `NPED + 1` samples before the end, with `NPED` in ns. -/
theorem fits_check (hpos : 1 ≤ g.NPEDs) (k : Nat) :
    Fits samples (g.checkStart samples.length k) (g.checkStart samples.length k + g.NPEDs - 1) ↔
      (k : Int) * (samples.length / NRMSCHECKS : Nat) + g.NPEDs < samples.length ∨
        (g.NPED + 1 ≤ samples.length ∧ g.NPEDs ≤ g.NPED + 1) := by
  unfold Fits checkStart
  have hstart : (0 : Int) ≤ (k : Int) * (samples.length / NRMSCHECKS : Nat) :=
    mul_nonneg (Int.natCast_nonneg _) (Int.natCast_nonneg _)
  dsimp only
  split <;> omega

/-- **All windows fit when the last one does.** -/
theorem fits_checks (hpos : 1 ≤ g.NPEDs) :
    (∀ k < NRMSCHECKS, (g.check samples k).Within samples.length) ↔
      lastStart samples.length + g.NPEDs < samples.length ∨
        (g.NPED + 1 ≤ samples.length ∧ g.NPEDs ≤ g.NPED + 1) := by
  simp only [within_check, fits_check hpos]
  constructor
  · intro h
    exact h (NRMSCHECKS - 1) (by decide)
  · rintro (h | h) k hk
    · left
      -- the windows before the last one start earlier
      have hle : (k : Int) * (samples.length / NRMSCHECKS : Nat) ≤ lastStart samples.length := by
        apply mul_le_mul_of_nonneg_right
        · have hk' : k ≤ NRMSCHECKS - 1 := by omega
          exact_mod_cast hk'
        · exact Int.natCast_nonneg _
      omega
    · exact Or.inr h

end IntVetofa250Converter.Setting

namespace IntVetofa250Converter

theorem le_of_mem_range {P : Nat → Prop} (h : ∀ k < NRMSCHECKS, P k) : ∀ k ∈ List.range NRMSCHECKS, P k :=
  fun k hk => h k (List.mem_range.mp hk)

/-- **Exactly when the search for the pedestal stays in the waveform**, for windows of at least one sample. -/
theorem windows_inside_iff (c : IntVetofa250Converter) (ampl : ℚ) (input : Fa250Mode1CalibPedSubHit)
    (hdT : 0 < input.dT) (hNPED : input.dT ≤ (c.NPED.getD 0 : ℚ))
    (hshort : (c.NPED.getD 0 : ℚ) / input.dT < input.samples.length) (hsize : input.samples.length < 2 ^ 31) :
    ((c.refinePedestal ampl input).Within input.samples.length ∧
      ∀ k < NRMSCHECKS, ((c.setting ampl input).check input.samples k).Within input.samples.length ∧
        1 ≤ inSamples (c.NPED.getD 0) input.dT) ↔
      (9 * (input.samples.length / 10 : Nat) + inSamples (c.NPED.getD 0) input.dT < input.samples.length ∨
        (c.NPED.getD 0 + 1 ≤ input.samples.length ∧ inSamples (c.NPED.getD 0) input.dT ≤ c.NPED.getD 0 + 1)) := by
  have hpos : 1 ≤ (c.setting ampl input).NPEDs := one_le_inSamples hdT hNPED hsize hshort
  have hfits : (∀ k < NRMSCHECKS, ((c.setting ampl input).check input.samples k).Within input.samples.length) ↔ _ :=
    Setting.fits_checks hpos
  constructor
  · rintro ⟨_, h⟩
    exact hfits.mp (fun k hk => (h k hk).1)
  · intro h
    have hchecks := hfits.mpr h
    exact ⟨Setting.within_search (le_of_mem_range hchecks) none, fun k hk => ⟨hchecks k hk, hpos⟩⟩

/-- The converter with the default parameters. -/
def defaultConverter : IntVetofa250Converter :=
  { minTot := some 12, thr := some (3 / 2), NSB := some 20, NSA := some 30, NPED := some 10, TOTTHR := some 100 }

/-- A hit of a digitiser that samples every 4 ns. -/
def vetoHit (samples : List ℚ) : Fa250Mode1CalibPedSubHit :=
  { channel := ⟨0, 0, 0⟩, samples, dT := 4, ped := 0, RMS := 1 }

theorem windows_inside_twenty :
    0 < (vetoHit (List.replicate 20 0)).dT ∧ (vetoHit (List.replicate 20 0)).dT ≤ (defaultConverter.NPED.getD 0 : ℚ) ∧
      (defaultConverter.NPED.getD 0 : ℚ) / (vetoHit (List.replicate 20 0)).dT < (20 : Nat) ∧
      (((defaultConverter.refinePedestal 1 (vetoHit (List.replicate 20 0))).Within 20 ∧
        ∀ k < NRMSCHECKS, ((defaultConverter.setting 1 (vetoHit (List.replicate 20 0))).check
          (List.replicate 20 0) k).Within 20 ∧ 1 ≤ inSamples (defaultConverter.NPED.getD 0) 4) ↔
        (9 * (20 / 10 : Nat) + inSamples (defaultConverter.NPED.getD 0) 4 < 20 ∨
          (defaultConverter.NPED.getD 0 + 1 ≤ (20 : Nat) ∧
            inSamples (defaultConverter.NPED.getD 0) 4 ≤ defaultConverter.NPED.getD 0 + 1))) := by
  refine ⟨by decide +kernel, by decide +kernel, by decide +kernel, ?_⟩
  exact windows_inside_iff defaultConverter 1 (vetoHit (List.replicate 20 0)) (by decide +kernel) (by decide +kernel)
    (by decide +kernel) (by decide)

/-- In a waveform of ten samples the last window starts before the first sample. -/
theorem window_before_waveform :
    ¬ ∀ (c : IntVetofa250Converter) (ampl : ℚ) (input : Fa250Mode1CalibPedSubHit),
      1 ≤ input.samples.length → 0 < input.dT → input.dT ≤ (c.NPED.getD 0 : ℚ) →
      (c.NPED.getD 0 : ℚ) / input.dT < input.samples.length → input.samples.length < 2 ^ 31 →
      ∀ k < NRMSCHECKS, ((c.setting ampl input).check input.samples k).Within input.samples.length ∧
        1 ≤ inSamples (c.NPED.getD 0) input.dT := by
  intro h
  have hlast := (h defaultConverter 1 (vetoHit (List.replicate 10 0)) (by decide) (by decide +kernel)
    (by decide +kernel) (by decide +kernel) (by decide) 9 (by decide)).1
  revert hlast
  decide +kernel

end IntVetofa250Converter

/-! ## The cut on the RMS -/

namespace IntVetofa250Converter.Setting

variable {g : Setting} {samples : List ℚ} {cut : ℚ}

/-- Mean and RMS of a window with samples. -/
def windowPedestal (g : Setting) (samples : List ℚ) (k : Nat) : Pedestal :=
  pedestalFrom samples (g.checkStart samples.length k) g.NPEDs

/-- The mean of a window. -/
def checkMean (g : Setting) (samples : List ℚ) (k : Nat) : ℚ := (g.windowPedestal samples k).mean

/-- The window has samples, and their RMS is at most the cut. -/
def Passes (g : Setting) (samples : List ℚ) (cut : ℚ) (k : Nat) : Prop :=
  g.NPEDs ≠ 0 ∧ ∃ rms, (g.windowPedestal samples k).rms = some rms ∧ rms ≤ cut

/-- The first window that passes. -/
def FirstPassing (g : Setting) (samples : List ℚ) (cut : ℚ) (k : Nat) : Prop :=
  k < NRMSCHECKS ∧ g.Passes samples cut k ∧ ∀ j < k, ¬ g.Passes samples cut j

/-- **The pedestal is the mean of the first window that passes the cut**, 0 if there is none. -/
structure Honours (g : Setting) (samples : List ℚ) (cut : ℚ) (r : Refined) : Prop where
  flag : r.found = true ↔ ∃ k < NRMSCHECKS, g.Passes samples cut k
  mean : ∀ k, g.FirstPassing samples cut k → r.ped = g.checkMean samples k
  zero : (∀ k < NRMSCHECKS, ¬ g.Passes samples cut k) → r.ped = 0

/-- All windows lie in the waveform. -/
def WindowsFit (g : Setting) (samples : List ℚ) : Prop :=
  ∀ k < NRMSCHECKS, Fits samples (g.checkStart samples.length k) (g.checkStart samples.length k + g.NPEDs - 1)

/-- A window that lies in the waveform decides whether the search ends there. -/
theorem search_cons {k : Nat} (hfits : Fits samples (g.checkStart samples.length k)
      (g.checkStart samples.length k + g.NPEDs - 1)) (pedRMS : Option ℚ) (rest : List Nat) :
    (g.Passes samples cut k ∧ ∃ r, (g.search samples cut pedRMS (k :: rest)).value = some r ∧ r.found = true ∧
      r.ped = g.checkMean samples k) ∨
    (¬ g.Passes samples cut k ∧ ∃ pedRMS',
      (g.search samples cut pedRMS (k :: rest)).value = (g.search samples cut pedRMS' rest).value) := by
  have hsearch : (g.search samples cut pedRMS (k :: rest)).value = (g.check samples k).value.bind (fun ped =>
      (match ped with
      | none => g.search samples cut none rest
      | some ped =>
        if rmsAtMost ped.rms cut then pure { found := true, ped := ped.mean, pedRMS := ped.rms }
        else g.search samples cut ped.rms rest : Reading Refined).value) := value_bind _ _
  rw [hsearch]
  by_cases hzero : g.NPEDs = 0
  · -- no samples, and no comparison is true
    refine Or.inr ⟨fun h => h.1 hzero, none, ?_⟩
    have hcheck : (g.check samples k).value = some none := by
      unfold check
      rw [hzero]
      exact value_pedestal_zero samples _
    rw [hcheck]
    rfl
  · have hcheck : (g.check samples k).value = some (some (g.windowPedestal samples k)) := value_pedestal hfits hzero
    rw [hcheck, Option.bind_some]
    dsimp only
    -- the comparison decides whether the loop breaks
    by_cases hrms : rmsAtMost (g.windowPedestal samples k).rms cut = true
    · refine Or.inl ⟨⟨hzero, rmsAtMost_iff.mp hrms⟩, ?_⟩
      rw [if_pos hrms]
      exact ⟨_, rfl, rfl, rfl⟩
    · refine Or.inr ⟨fun h => hrms (rmsAtMost_iff.mpr h.2), (g.windowPedestal samples k).rms, ?_⟩
      rw [if_neg hrms]

/-- **The search ends at the first window that passes.** -/
theorem search_cases (n : Nat) {start : Nat}
    (hfits : ∀ k, start ≤ k → k < start + n →
      Fits samples (g.checkStart samples.length k) (g.checkStart samples.length k + g.NPEDs - 1))
    (pedRMS : Option ℚ) :
    ∃ r, (g.search samples cut pedRMS (List.range' start n)).value = some r ∧
      ((r.found = true ∧ ∃ k, start ≤ k ∧ k < start + n ∧ g.Passes samples cut k ∧
          (∀ j, start ≤ j → j < k → ¬ g.Passes samples cut j) ∧ r.ped = g.checkMean samples k) ∨
        (r.found = false ∧ r.ped = 0 ∧ ∀ k, start ≤ k → k < start + n → ¬ g.Passes samples cut k)) := by
  -- by induction on the number of windows that are left
  induction n generalizing start pedRMS with
  | zero => exact ⟨_, rfl, Or.inr ⟨rfl, rfl, fun k hk hk' => absurd hk' (by omega)⟩⟩
  | succ n ih =>
      rw [List.range'_succ]
      rcases search_cons (hfits start (Nat.le_refl _) (by omega)) pedRMS (List.range' (start + 1) n)
        with ⟨hpass, r, hr, hfound, hped⟩ | ⟨hnot, pedRMS', hrest⟩
      · refine ⟨r, hr, Or.inl ⟨hfound, start, Nat.le_refl _, by omega, hpass, ?_, hped⟩⟩
        intro j hj hj'
        omega
      · obtain ⟨r, hr, hcases⟩ := ih (fun k (hk : start + 1 ≤ k) hk' => hfits k (by omega) (by omega)) pedRMS'
        refine ⟨r, hrest.trans hr, ?_⟩
        have hbefore : ∀ k, start ≤ k → ¬ start + 1 ≤ k → ¬ g.Passes samples cut k := by
          intro k hk hk'
          rwa [show k = start by omega]
        rcases hcases with ⟨hfound, k, hk, hk', hpass, hfirst, hped⟩ | ⟨hfound, hped, hnone⟩
        · refine Or.inl ⟨hfound, k, by omega, by omega, hpass, ?_, hped⟩
          intro j hj hjk
          by_cases hj' : start + 1 ≤ j
          · exact hfirst j hj' hjk
          · exact hbefore j hj hj'
        · refine Or.inr ⟨hfound, hped, ?_⟩
          intro k hk hk'
          by_cases hk'' : start + 1 ≤ k
          · exact hnone k hk'' (by omega)
          · exact hbefore k hk hk''

theorem FirstPassing.unique {i k : Nat} (hi : g.FirstPassing samples cut i) (hk : g.FirstPassing samples cut k) : i = k := by
  rcases Nat.lt_trichotomy i k with hlt | heq | hgt
  · exact absurd hi.2.1 (hk.2.2 i hlt)
  · exact heq
  · exact absurd hk.2.1 (hi.2.2 k hgt)

/-- What the search finds is the pedestal for the cut it uses. -/
theorem search_honours (hfits : g.WindowsFit samples) (cut : ℚ) :
    ∃ r, (g.search samples cut none (List.range NRMSCHECKS)).value = some r ∧ g.Honours samples cut r := by
  have hfits' : ∀ k, 0 ≤ k → k < 0 + NRMSCHECKS →
      Fits samples (g.checkStart samples.length k) (g.checkStart samples.length k + g.NPEDs - 1) :=
    fun k _ hk => hfits k (by omega)
  obtain ⟨r, hr, hcases⟩ := search_cases NRMSCHECKS hfits' none
  refine ⟨r, by rw [List.range_eq_range']; exact hr, ?_⟩
  rcases hcases with ⟨hfound, k, _, hk, hpass, hfirst, hped⟩ | ⟨hfound, hped, hnone⟩
  · have hkfirst : g.FirstPassing samples cut k := ⟨by omega, hpass, fun j hj => hfirst j (Nat.zero_le _) hj⟩
    refine ⟨iff_of_true hfound ⟨k, by omega, hpass⟩, ?_, fun hnone => absurd hpass (hnone k (by omega))⟩
    intro i hi
    rw [hi.unique hkfirst]
    exact hped
  · refine ⟨iff_of_false (by rw [hfound]; exact Bool.false_ne_true) ?_, ?_, fun _ => hped⟩
    · rintro ⟨k, hk, hpass⟩
      exact hnone k (Nat.zero_le _) (by omega) hpass
    · rintro k ⟨hk, hpass, _⟩
      exact absurd hpass (hnone k (Nat.zero_le _) (by omega))

theorem exists_firstPassing (h : ∃ k < NRMSCHECKS, g.Passes samples cut k) : ∃ k, g.FirstPassing samples cut k := by
  classical
  obtain ⟨k, hk, hpass⟩ := h
  refine ⟨Nat.find ⟨k, hpass⟩, ?_, Nat.find_spec ⟨k, hpass⟩, fun j hj => Nat.find_min _ hj⟩
  exact lt_of_le_of_lt (Nat.find_le hpass) hk

/-- The same search with another cut gives the same pedestal. -/
def SameCut (g : Setting) (samples : List ℚ) (cut cut' : ℚ) : Prop :=
  (∀ k < NRMSCHECKS, ¬ g.Passes samples cut k ∧ ¬ g.Passes samples cut' k) ∨
    ∃ i j, g.FirstPassing samples cut i ∧ g.FirstPassing samples cut' j ∧ g.checkMean samples i = g.checkMean samples j

/-- **When the result for one cut is right for another.** -/
theorem honours_iff_sameCut {cut' : ℚ} {r : Refined} (h : g.Honours samples cut' r) :
    g.Honours samples cut r ↔ g.SameCut samples cut cut' := by
  constructor
  · intro hcut
    by_cases hfound : r.found = true
    -- both searches stop somewhere, and both stops are the published pedestal
    · obtain ⟨i, hi⟩ := exists_firstPassing (hcut.flag.mp hfound)
      obtain ⟨j, hj⟩ := exists_firstPassing (h.flag.mp hfound)
      exact Or.inr ⟨i, j, hi, hj, (hcut.mean i hi).symm.trans (h.mean j hj)⟩
    · left
      intro k hk
      exact ⟨fun hpass => hfound (hcut.flag.mpr ⟨k, hk, hpass⟩), fun hpass => hfound (h.flag.mpr ⟨k, hk, hpass⟩)⟩
  · rintro (hnone | ⟨i, j, hi, hj, hmean⟩)
    · have hfound : r.found ≠ true := by
        intro hfound
        obtain ⟨k, hk, hpass⟩ := h.flag.mp hfound
        exact (hnone k hk).2 hpass
      refine ⟨iff_of_false hfound ?_, ?_, fun _ => h.zero (fun k hk => (hnone k hk).2)⟩
      · rintro ⟨k, hk, hpass⟩
        exact (hnone k hk).1 hpass
      · rintro k ⟨hk, hpass, _⟩
        exact absurd hpass (hnone k hk).1
    · have hfound : r.found = true := h.flag.mpr ⟨j, hj.1, hj.2.1⟩
      refine ⟨iff_of_true hfound ⟨i, hi.1, hi.2.1⟩, ?_, fun hnone => absurd hi.2.1 (hnone i hi.1)⟩
      intro k hk
      rw [hk.unique hi, hmean]
      exact h.mean j hj

/-- The rest of the conversion leaves pedestal and flag alone. -/
theorem analyse_keeps {w : List ℚ} {out h : IntVetoWaveformHit} (hvalue : (g.analyse w out).value = some h) :
    h.pedMean = out.pedMean ∧ h.RMSflag = out.RMSflag := by
  unfold analyse analyseWith at hvalue
  simp only [value_bind, Option.bind_eq_some_iff] at hvalue
  obtain ⟨sum, _, _, _, hvalue⟩ := hvalue
  cases hsingles : (crossingTimes w g.thr g.TOTTHR g.dT).filter (g.isSingle w.length) with
  | nil =>
      rw [hsingles] at hvalue
      simp only [noise, value_bind, value_pure, Option.bind_eq_some_iff, Option.some.injEq] at hvalue
      obtain ⟨_, _, _, _, rfl⟩ := hvalue
      exact ⟨rfl, rfl⟩
  | cons p rest =>
      rw [hsingles] at hvalue
      simp only [realSignal, value_bind, value_pure, Option.bind_eq_some_iff, Option.some.injEq] at hvalue
      obtain ⟨_, _, _, _, _, _, rfl⟩ := hvalue
      exact ⟨rfl, rfl⟩

end IntVetofa250Converter.Setting

/-! ## The converter of the factory -/

namespace IntVetofa250ConverterFactory

/-- The converter that the factory holds in the run after `n` whole runs. -/
def Holds (q : Parms) (n : Nat) (c : IntVetofa250Converter) : Prop :=
  ∃ (s s' : ConverterFactory IntVetofa250Converter) (updated : List Member) (p : Nat),
    (lifeCycle q).afterRuns n = some s ∧ brun q s = some (s', updated) ∧ s'.converter = some p ∧ s'.objects[p]? = some c

/-- In every run it has the parameters of the factory, but for the scale of the RMS. -/
def configured (q : Parms) : IntVetofa250Converter where
  thrCalib := some .intVetoConverterThrCalib
  minTot := some q.minTot
  thr := some q.thr
  NSB := some q.NSB
  NSA := some q.NSA
  NPED := some q.NPED
  TOTTHR := some q.TOTTHR

theorem holds_iff (q : Parms) (n : Nat) (c : IntVetofa250Converter) : Holds q n c ↔ c = configured q := by
  -- `brun` succeeds in every run and leaves the same converter
  have hrun : ∃ (s s' : ConverterFactory IntVetofa250Converter) (updated : List Member),
      (lifeCycle q).afterRuns n = some s ∧ brun q s = some (s', updated) ∧ s'.converter = some 0 ∧
        s'.objects[0]? = some (configured q) := by
    cases n with
    | zero => exact ⟨_, _, _, rfl, rfl, rfl, rfl⟩
    | succ n =>
        exact ⟨_, _, _, LifeCycle.afterRuns_eq (f := lifeCycle q) (s := between q) rfl rfl n, rfl, rfl, rfl⟩
  obtain ⟨s, s', updated, hs, hbrun, hptr, hobj⟩ := hrun
  constructor
  · rintro ⟨t, t', updated', p, ht, hbrun', hptr', hobj'⟩
    rw [hs] at ht
    rw [← Option.some.inj ht, hbrun] at hbrun'
    have hst : s' = t' := congrArg Prod.fst (Option.some.inj hbrun')
    rw [← hst, hptr] at hptr'
    rw [← hst, ← Option.some.inj hptr', hobj] at hobj'
    exact (Option.some.inj hobj').symm
  · rintro rfl
    exact ⟨s, s', updated, 0, hs, hbrun, hptr, hobj⟩

end IntVetofa250ConverterFactory

namespace IntVetofa250Converter

/-- **The conversion honours the scale of the RMS**: pedestal and flag are those for the configured cut, and the
    waveform is what is left after the subtraction of the published pedestal. -/
def HonoursScale (c : IntVetofa250Converter) (scale ampl : ℚ) (input : Fa250Mode1CalibPedSubHit) : Prop :=
  ∃ r, (c.refinePedestal ampl input).value = some r ∧
    (c.setting ampl input).Honours input.samples (Binary64.mul input.RMS scale) r ∧
    ∀ out, (c.convertMode1Hit ampl input).value = some out →
      out.RMSflag = r.found ∧ out.pedMean = some r.ped ∧
      ((c.setting ampl input).analyse (subtract input.samples r.ped)
        { pedMean := some r.ped, pedRMS := r.pedRMS, RMSflag := r.found }).value = some out

/-- **Exactly when the refinement honours its configuration**, for the converter of the factory in any run. -/
theorem honoursScale_iff (q : IntVetofa250ConverterFactory.Parms) (n : Nat) (c : IntVetofa250Converter)
    (hc : IntVetofa250ConverterFactory.Holds q n c) (ampl : ℚ) (input : Fa250Mode1CalibPedSubHit)
    (hfits : (c.setting ampl input).WindowsFit input.samples) :
    c.HonoursScale q.RMSTHRscale ampl input ↔
      (c.setting ampl input).SameCut input.samples (Binary64.mul input.RMS q.RMSTHRscale) 0 := by
  obtain rfl := (IntVetofa250ConverterFactory.holds_iff q n c).mp hc
  obtain ⟨r, hr, hhonours⟩ := Setting.search_honours hfits 0
  have hrefine : ((IntVetofa250ConverterFactory.configured q).refinePedestal ampl input).value = some r := by
    -- the member that holds the scale is still 0
    have hcut : Binary64.mul input.RMS ((IntVetofa250ConverterFactory.configured q).setting ampl input).RMSTHRscale = 0 := by
      show Binary64.round (input.RMS * 0) = 0
      rw [mul_zero, Binary64.round_zero]
    unfold refinePedestal
    dsimp only
    rw [hcut]
    exact hr
  have hconvert : ∀ out, ((IntVetofa250ConverterFactory.configured q).convertMode1Hit ampl input).value = some out →
      (((IntVetofa250ConverterFactory.configured q).setting ampl input).analyse (subtract input.samples r.ped)
        { pedMean := some r.ped, pedRMS := r.pedRMS, RMSflag := r.found }).value = some out := by
    intro out hout
    unfold convertMode1Hit at hout
    rw [value_bind, hrefine] at hout
    exact hout
  rw [← Setting.honours_iff_sameCut hhonours]
  constructor
  · rintro ⟨r', hr', hhonours', _⟩
    rw [hrefine] at hr'
    rw [Option.some.inj hr']
    exact hhonours'
  · intro hscale
    refine ⟨r, hrefine, hscale, ?_⟩
    intro out hout
    have hkeeps := Setting.analyse_keeps (hconvert out hout)
    exact ⟨hkeeps.2, hkeeps.1, hconvert out hout⟩

/-- The converter of the factory with the default parameters, in the first run, and a flat waveform. -/
theorem honoursScale_flat :
    IntVetofa250ConverterFactory.Holds {} 0 (IntVetofa250ConverterFactory.configured {}) ∧
      ((IntVetofa250ConverterFactory.configured {}).setting 1 (vetoHit (List.replicate 20 0))).WindowsFit
        (List.replicate 20 0) ∧
      ((IntVetofa250ConverterFactory.configured {}).HonoursScale 5 1 (vetoHit (List.replicate 20 0)) ↔
        ((IntVetofa250ConverterFactory.configured {}).setting 1 (vetoHit (List.replicate 20 0))).SameCut
          (List.replicate 20 0) (Binary64.mul 1 5) 0) := by
  have hholds := (IntVetofa250ConverterFactory.holds_iff {} 0 _).mpr rfl
  have hfits : ((IntVetofa250ConverterFactory.configured {}).setting 1 (vetoHit (List.replicate 20 0))).WindowsFit
      (List.replicate 20 0) :=
    fun k _ => (Setting.fits_check (by decide +kernel) k).mpr (Or.inr (by decide +kernel))
  exact ⟨hholds, hfits, honoursScale_iff {} 0 _ hholds 1 (vetoHit (List.replicate 20 0)) hfits⟩

/-- Every window has an RMS of 1, far below the default cut of 5, and none is taken. -/
theorem scale_not_honoured :
    ¬ ∀ (q : IntVetofa250ConverterFactory.Parms) (n : Nat) (c : IntVetofa250Converter),
      IntVetofa250ConverterFactory.Holds q n c → ∀ (ampl : ℚ) (input : Fa250Mode1CalibPedSubHit),
      (c.setting ampl input).WindowsFit input.samples → c.HonoursScale q.RMSTHRscale ampl input := by
  intro h
  have hfits : ((IntVetofa250ConverterFactory.configured {}).setting 1
      (vetoHit [1, -1, 1, -1, 1, -1, 1, -1, 1, -1, 1, -1])).WindowsFit [1, -1, 1, -1, 1, -1, 1, -1, 1, -1, 1, -1] :=
    fun k _ => (Setting.fits_check (by decide +kernel) k).mpr (Or.inr (by decide +kernel))
  obtain ⟨r, hr, hhonours, _⟩ := h {} 0 _ ((IntVetofa250ConverterFactory.holds_iff {} 0 _).mpr rfl) 1
    (vetoHit [1, -1, 1, -1, 1, -1, 1, -1, 1, -1, 1, -1]) hfits
  have hrun : ((IntVetofa250ConverterFactory.configured {}).refinePedestal 1
      (vetoHit [1, -1, 1, -1, 1, -1, 1, -1, 1, -1, 1, -1])).value.map Refined.found = some false := by decide +kernel
  rw [hr, Option.map_some, Option.some.injEq] at hrun
  have hpass := hhonours.flag.mpr ⟨0, by decide, by decide +kernel, 1, by decide +kernel, by decide +kernel⟩
  rw [hrun] at hpass
  exact Bool.false_ne_true hpass

end IntVetofa250Converter

end BdxReco
