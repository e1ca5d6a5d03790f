import BdxReco.Converters.IntVeto
import BdxReco.Lib.Slots
import Mathlib.Algebra.Order.BigOperators.Group.Finset
import Mathlib.Data.List.GetD

/-!
# `Converters.ExtVeto` — the waveforms of the outer veto

`ExtVetofa250Converter::convertMode1Hit` takes the time where the waveform reaches the threshold, between two samples.
A pulse late enough leaves room for a pedestal of its own; for an early one the converter falls back on the pedestal
of an earlier hit, which it keeps in a `static` array of 100 values.

The start values of the local variables serve as flags: `Tinf > 0` stands for "found between two samples", which
leaves out the crossing between the first two (`crossingTime_iff`). The array is indexed by the component alone
(`independent_iff`).

All values are doubles. The levels of the samples, the threshold and the sum of a pedestal are what their operations
give, rounding included: a mean of samples below the threshold can come out above it (`pedestal_reaches`).
-/

namespace BdxReco

open Reading

/-- The members of `ExtVetoPMTHit` that `convertMode1Hit` sets. -/
structure ExtVetoPMTHit where
  Q : ℚ
  T : ℚ
  pedMean : ℚ
  deriving DecidableEq, Repr

namespace ExtVetofa250Converter

def LSB : ℚ := Binary64.round (4884 / 10000)

/-! ## `convertMode1Hit` -/

/-- What `threshold` and `m_pedestals` have for the channel. -/
structure Constants where
  VThr : ℚ
  pedestalDAQ : ℚ
  deriving DecidableEq, Repr

def Constants.Thr (k : Constants) : ℚ := Binary64.add (Binary64.mul k.pedestalDAQ LSB) k.VThr

/-- The local variables of the timing loop. -/
structure Edge where
  T : ℚ := 0
  Tinf : ℚ := 0
  Ainf : ℚ := 0
  Tsup : ℚ := 0
  Asup : ℚ := 0
  deriving DecidableEq, Repr

namespace Edge

/-- A sample below the threshold. -/
def pass (size : Nat) (s : Edge) (ii : Nat) : Edge := if ii + 1 = size then { s with T := -10 } else s

/-- The first sample that reaches the threshold. -/
def found (samples : List ℚ) (s : Edge) (ii : Nat) (x : ℚ) : Reading Edge :=
  if ii = 0 then pure { s with T := 0 }
  else do
    let prev ← get samples (ii - 1 : Nat)
    pure { s with Tinf := ii - 1, Tsup := ii, Ainf := Binary64.mul prev LSB, Asup := Binary64.mul x LSB }

end Edge

/-- The timing loop. -/
def timingLoop (samples : List ℚ) (Thr : ℚ) : Reading Edge :=
  loopUntil samples (fun x => decide (Binary64.mul x LSB ≥ Thr)) (Edge.pass samples.length) (Edge.found samples) {}
    (List.range samples.length)

namespace Edge

/-- The place on the line through the two samples. -/
def interpolated (s : Edge) (Thr : ℚ) : ℚ :=
  let slope := Binary64.div (Binary64.sub s.Tsup s.Tinf) (Binary64.sub s.Asup s.Ainf)
  Binary64.add (Binary64.mul slope (Binary64.sub Thr s.Ainf)) s.Tinf

end Edge

/-- `T`, in samples. -/
def timing (samples : List ℚ) (Thr : ℚ) : Reading ℚ := do
  let s ← timingLoop samples Thr
  pure (if s.Tinf > 0 then s.interpolated Thr else s.T)

/-- `for (int ii = 0; ii < nSamples; ii++)`, where `nSamples` is a `double`: the values of `ii`. -/
def indicesBelow (nSamples : ℚ) : List Int := interval 0 (⌈nSamples⌉ - 1)

/-- `Q_pedestal` and `j`. -/
def pedestalLoop (samples : List ℚ) (nSamples : ℚ) : Reading (ℚ × Int) :=
  loop samples (fun s _ x => (Binary64.add s.1 (Binary64.mul x LSB), s.2 + 1)) (0, 0) (indicesBelow nSamples)

/-- The loop over the whole waveform. -/
def charge (samples : List ℚ) (pedestal : ℚ) : Reading ℚ :=
  loop samples (fun Q _ x => Binary64.add Q (Binary64.sub (Binary64.mul x LSB) pedestal)) 0
    (interval 0 (samples.length - 1))

def TIndexMin (T : ℚ) : Int :=
  let T_index_min := Binary64.toInt (Binary64.sub T 2)
  if T_index_min < 0 then 0 else T_index_min

def TIndexMax (size : Nat) (T : ℚ) : Int :=
  let T_index_max := Binary64.toInt (Binary64.add T 4)
  if T_index_max ≥ (size : Int) - 1 then size - 1 else T_index_max

/-- The loop of the correction. -/
def recovery (samples : List ℚ) (T pedestalDAQ : ℚ) : Reading ℚ :=
  loop samples (fun Q _ x => Binary64.add Q (Binary64.sub (Binary64.mul x LSB) (Binary64.mul pedestalDAQ LSB))) 0
    (interval (TIndexMin T) (TIndexMax samples.length T - 1))

/-- `pedestal` and `Q`, and what stands in `Vpedestal_backup[channel]` afterwards. -/
def pedestalAndCharge (samples : List ℚ) (T backup : ℚ) : Reading (ℚ × ℚ × ℚ) :=
  if T ≥ 0 then
    if T > 35 then do
      let (Q_pedestal, j) ← pedestalLoop samples (Binary64.sub T 5)
      let pedestal := Binary64.div Q_pedestal j
      let Q ← charge samples pedestal
      pure (pedestal, Q, pedestal)
    else do
      let Q ← charge samples backup
      pure (backup, Q, backup)
  else pure (0, 0, backup)

/-- "correction Q<0". -/
def corrected (samples : List ℚ) (T Q pedestalDAQ : ℚ) : Reading ℚ :=
  if T ≥ 0 ∧ Q < 0 then recovery samples T pedestalDAQ else pure Q

/-- "charge in nWb , 50 ohm". -/
def chargeInNWb (Q : ℚ) : ℚ := Binary64.div (Binary64.mul (Binary64.mul Q 4) (Binary64.round (1 / 1000))) 50

/-- `convertMode1Hit` for a channel that has `backup` in its slot: the hit, and what is in the slot afterwards. -/
def convert (k : Constants) (backup : ℚ) (samples : List ℚ) : Reading (ExtVetoPMTHit × ℚ) := do
  let backup := if backup = 0 then Binary64.mul k.pedestalDAQ LSB else backup
  let T ← timing samples k.Thr
  let (pedestal, Q, backup) ← pedestalAndCharge samples T backup
  let Q ← corrected samples T Q k.pedestalDAQ
  pure ({ Q := chargeInNWb Q, T := Binary64.mul T 4, pedMean := pedestal }, backup)

/-- `Vpedestal_backup`. -/
abbrev Backup : Type := Fin 100 → ℚ

/-- `channel`. -/
def channel (i : ExtVetoIndex) : Int :=
  if i.component.toInt = 6 ∧ i.readout.toInt = 2 then i.component.toInt + 1 else i.component.toInt

/-- `Vpedestal_backup.at(channel)`; `none` is the exception. -/
def slot? (i : ExtVetoIndex) : Option (Fin 100) :=
  if h : 0 ≤ channel i ∧ channel i < 100 then some ⟨(channel i).toNat, by omega⟩ else none

/-- `convertMode1Hit`. -/
def convertMode1Hit (Vpedestal_backup : Backup) (i : ExtVetoIndex) (k : Constants) (samples : List ℚ) :
    Option (Reading (ExtVetoPMTHit × Backup)) := do
  let s ← slot? i
  pure do
    let (output, backup) ← convert k (Vpedestal_backup s) samples
    pure (output, Function.update Vpedestal_backup s backup)

/-! ## The time -/

/-- A sample, in mV. -/
def level (samples : List ℚ) (i : Nat) : ℚ := Binary64.mul (sample samples i) LSB

/-- The first sample at or over the threshold. -/
structure FirstReaching (samples : List ℚ) (Thr : ℚ) (i : Nat) : Prop where
  lt : i < samples.length
  le : Thr ≤ level samples i
  before : ∀ j < i, level samples j < Thr

/-- No sample reaches the threshold. -/
def NoneReaches (samples : List ℚ) (Thr : ℚ) : Prop := ∀ i < samples.length, level samples i < Thr

/-- The part of a sample from the sample `i - 1` to the crossing, and its place. -/
def fraction (samples : List ℚ) (Thr : ℚ) (i : Nat) : ℚ :=
  Binary64.mul (Binary64.div 1 (Binary64.sub (level samples i) (level samples (i - 1))))
    (Binary64.sub Thr (level samples (i - 1)))

def crossingAt (samples : List ℚ) (Thr : ℚ) (i : Nat) : ℚ := Binary64.add (fraction samples Thr i) ((i : ℚ) - 1)

section Timing

variable {samples : List ℚ} {Thr : ℚ} {i : Nat}

theorem noneReaches_or_firstReaching (samples : List ℚ) (Thr : ℚ) :
    NoneReaches samples Thr ∨ ∃ i, FirstReaching samples Thr i := by
  rcases none_or_first samples.length (fun i => Thr ≤ level samples i) with h | ⟨i, hi, hle, hbefore⟩
  · exact Or.inl fun i hi => not_le.mp (h i hi)
  · exact Or.inr ⟨i, hi, hle, fun j hj => not_le.mp (hbefore j hj)⟩

theorem FirstReaching.unique {j : Nat} (h : FirstReaching samples Thr i) (h' : FirstReaching samples Thr j) : i = j := by
  rcases lt_trichotomy i j with hlt | heq | hgt
  · exact absurd h.le (not_le.mpr (h'.before i hlt))
  · exact heq
  · exact absurd h'.le (not_le.mpr (h.before j hgt))

theorem FirstReaching.not_none (h : FirstReaching samples Thr i) : ¬ NoneReaches samples Thr :=
  fun hnone => absurd h.le (not_le.mpr (hnone i h.lt))

theorem FirstReaching.fraction_nonneg (h : FirstReaching samples Thr i) (hi : 1 ≤ i) : 0 ≤ fraction samples Thr i := by
  have hprev := h.before (i - 1) (by omega)
  have hstep := Binary64.round_nonneg (sub_nonneg.mpr (hprev.trans_le h.le).le)
  have hpart := Binary64.round_nonneg (sub_nonneg.mpr hprev.le)
  exact Binary64.round_nonneg (mul_nonneg (Binary64.round_nonneg (div_nonneg zero_le_one hstep)) hpart)

/-- The step between the two samples, and the part of it up to the threshold. -/
theorem FirstReaching.step (h : FirstReaching samples Thr i) (hi : 1 ≤ i) :
    0 < Binary64.sub (level samples i) (level samples (i - 1)) ∧
      Binary64.sub Thr (level samples (i - 1)) ≤ Binary64.sub (level samples i) (level samples (i - 1)) := by
  have hprev := h.before (i - 1) (by omega)
  constructor
  · exact (Binary64.isDouble_round _).zero_lt_sub (Binary64.isDouble_round _) (hprev.trans_le h.le)
  · exact Binary64.round_mono (sub_le_sub_right h.le _)

theorem abs_level_le (hrange : ∀ x ∈ samples, |x| ≤ 2 ^ 1000) (i : Nat) : |level samples i| ≤ 2 ^ 1000 := by
  have hsample : |sample samples i| ≤ 2 ^ 1000 := by
    unfold sample
    rcases lt_or_ge i samples.length with hi | hi
    · rw [List.getD_eq_getElem samples 0 hi]
      exact hrange _ (List.getElem_mem hi)
    · rw [List.getD_eq_default samples 0 hi, abs_zero]
      exact pow_nonneg two_pos.le _
  have hLSB : |LSB| ≤ 1 := by decide +kernel
  apply Binary64.abs_round_le (Binary64.isDouble_two_pow 1000)
  rw [abs_mul]
  exact (mul_le_of_le_one_right (abs_nonneg _) hLSB).trans hsample

theorem step_le (hrange : ∀ x ∈ samples, |x| ≤ 2 ^ 1000) (i : Nat) :
    Binary64.sub (level samples i) (level samples (i - 1)) ≤ 2 ^ (1021 : Int) := by
  have hlevel := (abs_le.mp (abs_level_le hrange i)).2
  have hprev := (abs_le.mp (abs_level_le hrange (i - 1))).1
  have hdiff : level samples i - level samples (i - 1) ≤ 2 ^ 1001 := by
    rw [pow_succ, mul_two, ← sub_neg_eq_add]
    exact sub_le_sub hlevel hprev
  calc Binary64.sub (level samples i) (level samples (i - 1)) ≤ Binary64.round (2 ^ 1001) := Binary64.round_mono hdiff
    _ = 2 ^ (1001 : Int) := by
        rw [Binary64.isDouble_two_pow 1001]
        exact (zpow_natCast 2 1001).symm
    _ ≤ 2 ^ (1021 : Int) := zpow_le_zpow_right₀ one_le_two (by omega)

theorem round_pred {n : Nat} (hn : 1 ≤ n) (hle : n ≤ 2 ^ 53) : Binary64.round ((n : ℚ) - 1) = (n : ℚ) - 1 := by
  have hpred := Binary64.round_natCast (n := n - 1) (by omega)
  rwa [Nat.cast_sub hn, Nat.cast_one] at hpred

/-- **The crossing does not come before the sample `i - 1`**, nor after the sample `i + 1`. -/
theorem FirstReaching.crossingAt_bounds (h : FirstReaching samples Thr i) (hi : 1 ≤ i)
    (hsize : samples.length < 2 ^ 31) :
    (i : ℚ) - 1 ≤ crossingAt samples Thr i ∧ crossingAt samples Thr i ≤ i + 1 := by
  have hlt := h.lt
  obtain ⟨hstep, hpart⟩ := h.step hi
  unfold crossingAt
  constructor
  · calc (i : ℚ) - 1 = Binary64.round ((i : ℚ) - 1) := (round_pred hi (by omega)).symm
      _ ≤ _ := Binary64.round_mono (by linarith [h.fraction_nonneg hi])
  · have htwo : fraction samples Thr i ≤ 2 := Binary64.mul_div_le_two hstep hpart
    have hnext := Binary64.round_natCast (n := i + 1) (by omega)
    rw [Nat.cast_add, Nat.cast_one] at hnext
    rw [← hnext]
    exact Binary64.round_mono (by linarith)

/-- **Where the crossing is kept between its two samples**: the fraction of a sample is more than what is lost in the
    sum with `i - 1`, and not over 1 by more than what is lost in the sum with `i`. -/
structure Kept (samples : List ℚ) (Thr : ℚ) (i : Nat) : Prop where
  low : 2 ^ Binary64.ulpExp ((i - 1 : Nat) : ℚ) / 2 < fraction samples Thr i
  high : fraction samples Thr i ≤ 1 + 2 ^ Binary64.ulpExp i / 2

theorem FirstReaching.kept_iff (h : FirstReaching samples Thr i) (hi : 1 < i) (hsize : samples.length < 2 ^ 31) :
    (i : ℚ) - 1 < crossingAt samples Thr i ∧ crossingAt samples Thr i ≤ i ↔ Kept samples Thr i := by
  have hlt := h.lt
  have hpred : ((i - 1 : Nat) : ℚ) = (i : ℚ) - 1 := by rw [Nat.cast_sub hi.le, Nat.cast_one]
  have hlow : (i : ℚ) - 1 < crossingAt samples Thr i ↔
      2 ^ Binary64.ulpExp ((i - 1 : Nat) : ℚ) / 2 < fraction samples Thr i := by
    have hlost := Binary64.add_natCast_eq_iff (n := i - 1) (by omega) (by omega) (h.fraction_nonneg hi.le)
    rw [lt_iff_le_and_ne, and_iff_right (h.crossingAt_bounds hi.le hsize).1, ← not_le, ← hlost, hpred]
    exact not_congr eq_comm
  have hhigh : crossingAt samples Thr i ≤ i ↔ fraction samples Thr i ≤ 1 + 2 ^ Binary64.ulpExp i / 2 := by
    have hround := Binary64.round_natCast (n := i) (by omega)
    have hunit := Binary64.two_zpow_pos (Binary64.ulpExp i)
    rcases le_or_gt (fraction samples Thr i) 1 with hone | hone
    · refine iff_of_true ?_ (by linarith)
      calc crossingAt samples Thr i ≤ Binary64.round i := Binary64.round_mono (by linarith)
        _ = i := hround
    · -- the sum is that of `i` and what is over 1
      have hover : crossingAt samples Thr i = Binary64.add (fraction samples Thr i - 1) i := by
        unfold crossingAt Binary64.add
        congr 1
        ring
      have hlost := Binary64.add_natCast_eq_iff (n := i) (by omega) (by omega) (sub_nonneg.mpr hone.le)
      have hge : (i : ℚ) ≤ crossingAt samples Thr i := by
        rw [hover, ← hround]
        exact Binary64.round_mono (by linarith)
      rw [le_iff_eq_or_lt, or_iff_left (not_lt.mpr hge), hover, hlost, sub_le_iff_le_add']
  rw [hlow, hhigh]
  exact ⟨fun h => ⟨h.1, h.2⟩, fun h => ⟨h.low, h.high⟩⟩

/-- **Samples up to `2 ^ 1000`** leave the quotient its digits, and the fraction is one. -/
theorem FirstReaching.kept_iff_low (h : FirstReaching samples Thr i) (hi : 1 ≤ i)
    (hrange : ∀ x ∈ samples, |x| ≤ 2 ^ 1000) :
    Kept samples Thr i ↔ 2 ^ Binary64.ulpExp ((i - 1 : Nat) : ℚ) / 2 < fraction samples Thr i := by
  obtain ⟨hstep, hpart⟩ := h.step hi
  have hone : fraction samples Thr i ≤ 1 := Binary64.mul_div_le_one hstep (step_le hrange i) hpart
  have hunit := Binary64.two_zpow_pos (Binary64.ulpExp i)
  constructor
  · intro hkept
    exact hkept.low
  · intro hlow
    exact ⟨hlow, by linarith⟩

/-- Before the last sample the loop changes nothing. -/
theorem foldl_pass_of_lt {n size : Nat} (hn : n < size) (s : Edge) : (List.range n).foldl (Edge.pass size) s = s := by
  induction n with
  | zero => rfl
  | succ n ih =>
      rw [List.range_succ, List.foldl_append, ih (by omega)]
      exact if_neg (by omega)

/-- The loop without a crossing. -/
theorem timingLoop_of_none (h : NoneReaches samples Thr) :
    (timingLoop samples Thr).value = some { T := if samples = [] then 0 else -10 } ∧
      (timingLoop samples Thr).Within samples.length := by
  obtain ⟨hvalue, hwithin⟩ := loopUntil_range_none (Edge.pass samples.length) (Edge.found samples)
    (p := fun x => decide (Binary64.mul x LSB ≥ Thr)) 0 (fun i hi => decide_eq_false (not_le.mpr (h i hi))) {}
  refine ⟨hvalue.trans ?_, hwithin⟩
  rcases Nat.eq_zero_or_pos samples.length with hlen | hlen
  · rw [List.length_eq_zero_iff.mp hlen]
    rfl
  · have hne : samples ≠ [] := List.ne_nil_of_length_pos hlen
    obtain ⟨n, hn⟩ : ∃ n, samples.length = n + 1 := ⟨samples.length - 1, by omega⟩
    -- the last sample is the one that sets `T`
    rw [hn, List.range_succ, List.foldl_append, foldl_pass_of_lt (Nat.lt_succ_self n), if_neg hne]
    simp [Edge.pass]

/-- The loop with one. -/
theorem timingLoop_of_first (h : FirstReaching samples Thr i) :
    (timingLoop samples Thr).value = (Edge.found samples {} i (sample samples i)).value ∧
      (timingLoop samples Thr).Within samples.length := by
  obtain ⟨hvalue, hwithin⟩ := loopUntil_range_some (Edge.pass samples.length) (Edge.found samples)
    (p := fun x => decide (Binary64.mul x LSB ≥ Thr)) 0 h.lt (decide_eq_true h.le)
    (fun j hj => decide_eq_false (not_le.mpr (h.before j hj))) {}
  rw [foldl_pass_of_lt h.lt] at hvalue hwithin
  refine ⟨hvalue, hwithin.mpr ?_⟩
  unfold Edge.found
  split
  · exact within_pure _ _
  · rw [within_bind, within_get]
    have hlt := h.lt
    exact ⟨⟨by omega, by omega⟩, fun _ _ => within_pure _ _⟩

/-- **The time of a waveform without a crossing.** -/
theorem timing_of_none (h : NoneReaches samples Thr) :
    (timing samples Thr).value = some (if samples = [] then 0 else -10) := by
  unfold timing
  rw [value_bind, (timingLoop_of_none h).1]
  rfl

/-- **The time of a crossing**: the one between the first two samples is lost. -/
theorem timing_of_first (h : FirstReaching samples Thr i) :
    (timing samples Thr).value = some (if i ≤ 1 then 0 else crossingAt samples Thr i) := by
  unfold timing
  rw [value_bind, (timingLoop_of_first h).1]
  unfold Edge.found
  by_cases hzero : i = 0
  · subst hzero
    rfl
  · have hprev : (get samples (i - 1 : Nat)).value = some (sample samples (i - 1)) :=
      value_get_nat (by have := h.lt; omega) 0
    rw [if_neg hzero, value_bind, hprev]
    have hcast : ((i : ℚ) - 1 > 0) ↔ ¬ i ≤ 1 := by
      rw [gt_iff_lt, sub_pos, Nat.one_lt_cast, not_le]
    by_cases hone : i ≤ 1
    · simp [hcast, hone]
    · simp only [Option.bind_some, value_pure, hcast, hone, not_false_eq_true, if_true, if_false]
      have hsub : Binary64.sub (i : ℚ) ((i : ℚ) - 1) = 1 := by
        unfold Binary64.sub
        rw [sub_sub_cancel]
        decide +kernel
      unfold Edge.interpolated crossingAt fraction level
      rw [hsub]

/-- **What `T` can be.** -/
theorem timing_cases (samples : List ℚ) (Thr : ℚ) :
    ∃ T, (timing samples Thr).value = some T ∧
      ((NoneReaches samples Thr ∧ T = if samples = [] then 0 else -10) ∨
        ∃ i, FirstReaching samples Thr i ∧ T = if i ≤ 1 then 0 else crossingAt samples Thr i) := by
  rcases noneReaches_or_firstReaching samples Thr with h | ⟨i, h⟩
  · exact ⟨_, timing_of_none h, Or.inl ⟨h, rfl⟩⟩
  · exact ⟨_, timing_of_first h, Or.inr ⟨i, h, rfl⟩⟩

/-- `T` is a double. -/
theorem isDouble_of_cases {T : ℚ} (h : (NoneReaches samples Thr ∧ T = if samples = [] then 0 else -10) ∨
    ∃ i, FirstReaching samples Thr i ∧ T = if i ≤ 1 then 0 else crossingAt samples Thr i) : Binary64.IsDouble T := by
  rcases h with ⟨_, rfl⟩ | ⟨i, _, rfl⟩
  · split <;> decide +kernel
  · split
    · decide +kernel
    · exact Binary64.isDouble_round _

theorem within_timing (samples : List ℚ) (Thr : ℚ) : (timing samples Thr).Within samples.length := by
  unfold timing
  rw [within_bind]
  refine ⟨?_, fun _ _ => within_pure _ _⟩
  rcases noneReaches_or_firstReaching samples Thr with h | ⟨i, h⟩
  · exact (timingLoop_of_none h).2
  · exact (timingLoop_of_first h).2

end Timing

/-! ## The windows -/

section Windows

variable {samples : List ℚ} {Thr T : ℚ}

/-- A pulse with a pedestal of its own. -/
theorem late_crossing (hsize : samples.length < 2 ^ 31) (hT : (timing samples Thr).value = some T) (hlate : 35 < T) :
    ∃ i k : Nat, FirstReaching samples Thr i ∧ Binary64.sub T 5 = T - 5 ∧ (k : Int) = ⌈T - 5⌉ ∧ 30 < k ∧ k ≤ i := by
  obtain ⟨T', hT', hcases⟩ := timing_cases samples Thr
  rw [hT, Option.some.injEq] at hT'
  subst hT'
  rcases hcases with ⟨_, hzero⟩ | ⟨i, hfirst, hTi⟩
  · split at hzero <;> linarith
  · split at hTi
    · linarith
    · have hlt := hfirst.lt
      have hle : T ≤ i + 1 := hTi ▸ (hfirst.crossingAt_bounds (by omega) hsize).2
      have hexact : Binary64.sub T 5 = T - 5 := by
        have hdouble : Binary64.IsDouble T := hTi ▸ Binary64.isDouble_round _
        have hsmall : (i : ℚ) + 1 < 2 ^ 53 := by exact_mod_cast (by omega : i + 1 < 2 ^ 53)
        exact hdouble.sub_natCast (n := 5) (hle.trans_lt hsmall) (by push_cast; linarith)
      have hceil : 30 < ⌈T - 5⌉ := by
        rw [Int.lt_ceil]
        push_cast
        linarith
      have hceil' : ⌈T - 5⌉ ≤ (i : Int) := by
        rw [Int.ceil_le]
        push_cast
        linarith
      exact ⟨i, ⌈T - 5⌉.toNat, hfirst, hexact, by omega, by omega, by omega⟩

/-- The samples before `k`, in mV. -/
def levels (samples : List ℚ) (k : Nat) : List ℚ := (List.range k).map (level samples)

/-- Their mean. -/
def mean (samples : List ℚ) (k : Nat) : ℚ := Binary64.div (Binary64.total (levels samples k)) k

theorem foldl_pedestal (samples : List ℚ) (k : Nat) :
    (List.range k).foldl
        (fun (s : ℚ × Int) i => (Binary64.add s.1 (Binary64.mul (sample samples i) LSB), s.2 + 1)) (0, 0)
      = (Binary64.total (levels samples k), (k : Int)) := by
  have hcount : (List.range k).foldl (fun (j : Int) _ => j + 1) 0 = k := by
    rw [foldl_add_range k (fun _ => (1 : Int))]
    simp
  rw [foldl_pair (fun Q i => Binary64.add Q (Binary64.mul (sample samples i) LSB)) (fun (j : Int) _ => j + 1), hcount]
  unfold Binary64.total levels
  rw [List.foldl_map]
  rfl

theorem indicesBelow_inBounds {nSamples : ℚ} {k : Nat} (hk : (k : Int) = ⌈nSamples⌉) (hle : k ≤ samples.length) :
    ∀ i ∈ indicesBelow nSamples, InBounds samples.length i := by
  unfold indicesBelow
  rw [← hk, forall_interval]
  intro _
  exact ⟨le_refl _, by omega⟩

theorem value_pedestalLoop {nSamples : ℚ} {k : Nat} (hk : (k : Int) = ⌈nSamples⌉) (hle : k ≤ samples.length) :
    (pedestalLoop samples nSamples).value = some (Binary64.total (levels samples k), (k : Int)) := by
  unfold pedestalLoop indicesBelow
  rw [← hk, value_loop_zero _ 0 hle, ← foldl_pedestal]
  rfl

theorem charge_inBounds (samples : List ℚ) : ∀ i ∈ interval 0 ((samples.length : Int) - 1), InBounds samples.length i :=
  forall_interval.mpr (fits_all samples)

theorem within_charge (samples : List ℚ) (pedestal : ℚ) : (charge samples pedestal).Within samples.length :=
  (within_loop samples _ 0 _).mpr (charge_inBounds samples)

/-- The window of the recovery is cut at both ends. -/
theorem recovery_inBounds (samples : List ℚ) (T : ℚ) :
    ∀ i ∈ interval (TIndexMin T) (TIndexMax samples.length T - 1), InBounds samples.length i := by
  have hmin : 0 ≤ TIndexMin T := by
    unfold TIndexMin
    dsimp only
    split <;> omega
  have hmax : TIndexMax samples.length T ≤ (samples.length : Int) - 1 := by
    unfold TIndexMax
    dsimp only
    split <;> omega
  rw [forall_interval]
  intro _
  exact ⟨hmin, by omega⟩

theorem within_recovery (samples : List ℚ) (T pedestalDAQ : ℚ) :
    (recovery samples T pedestalDAQ).Within samples.length :=
  (within_loop samples _ 0 _).mpr (recovery_inBounds samples T)

end Windows

/-! ## The whole conversion -/

section Convert

variable {samples : List ℚ} {T : ℚ}

/-- The pedestal and the charge are always found, in the waveform. -/
theorem pedestalAndCharge_spec {Thr : ℚ} (hsize : samples.length < 2 ^ 31) (hT : (timing samples Thr).value = some T)
    (backup : ℚ) :
    (pedestalAndCharge samples T backup).Within samples.length ∧
    ∃ r, (pedestalAndCharge samples T backup).value = some r ∧
      ∀ k : Nat, 35 < T → (k : Int) = ⌈T - 5⌉ → r.1 = mean samples k := by
  have hcharge : ∀ pedestal, ∃ Q, (charge samples pedestal).value = some Q :=
    fun pedestal => ⟨_, value_loop samples _ 0 (charge_inBounds samples) 0⟩
  unfold pedestalAndCharge
  by_cases hsignal : T ≥ 0
  · rw [if_pos hsignal]
    by_cases hlate : T > 35
    · rw [if_pos hlate]
      obtain ⟨i, k, hfirst, hexact, hk, _, hki⟩ := late_crossing hsize hT hlate
      have hle : k ≤ samples.length := le_trans hki hfirst.lt.le
      have hloop := value_pedestalLoop hk hle
      rw [hexact]
      constructor
      · rw [within_bind]
        refine ⟨(within_loop samples _ _ _).mpr (indicesBelow_inBounds hk hle), ?_⟩
        intro s _
        rw [within_bind]
        exact ⟨within_charge samples _, fun _ _ => within_pure _ _⟩
      · obtain ⟨Q, hQ⟩ := hcharge (Binary64.div (Binary64.total (levels samples k)) (k : Int))
        refine ⟨_, by rw [value_bind, hloop, Option.bind_some, value_bind, hQ]; rfl, ?_⟩
        intro k' _ hk'
        have hkk : k' = k := by omega
        rw [hkk]
        unfold mean
        simp only [Int.cast_natCast]
    · rw [if_neg hlate]
      obtain ⟨Q, hQ⟩ := hcharge backup
      constructor
      · rw [within_bind]
        exact ⟨within_charge samples _, fun _ _ => within_pure _ _⟩
      · exact ⟨_, by rw [value_bind, hQ]; rfl, fun _ hlate' => absurd hlate' hlate⟩
  · rw [if_neg hsignal]
    exact ⟨within_pure _ _, _, rfl, fun _ hlate => absurd (by linarith) hsignal⟩

theorem corrected_spec (samples : List ℚ) (T Q pedestalDAQ : ℚ) :
    (corrected samples T Q pedestalDAQ).Within samples.length ∧
      ∃ Q', (corrected samples T Q pedestalDAQ).value = some Q' := by
  unfold corrected
  split
  · exact ⟨within_recovery samples _ _, _, value_loop samples _ 0 (recovery_inBounds samples T) 0⟩
  · exact ⟨within_pure _ _, Q, rfl⟩

/-- **What a call does**: it always comes to an end inside the waveform. -/
theorem convert_spec (k : Constants) (backup : ℚ) {samples : List ℚ} (hsize : samples.length < 2 ^ 31) :
    (convert k backup samples).Within samples.length ∧
    ∃ T out backup', (timing samples k.Thr).value = some T ∧
      (convert k backup samples).value = some (out, backup') ∧ out.T = 4 * T ∧
      ∀ n : Nat, 35 < T → (n : Int) = ⌈T - 5⌉ → out.pedMean = mean samples n := by
  obtain ⟨T, hT, hcases⟩ := timing_cases samples k.Thr
  obtain ⟨hwithin, r, hr, hmean⟩ :=
    pedestalAndCharge_spec hsize hT (if backup = 0 then Binary64.mul k.pedestalDAQ LSB else backup)
  obtain ⟨hcorrected, Q, hQ⟩ := corrected_spec samples T r.2.1 k.pedestalDAQ
  have htime : Binary64.mul T 4 = 4 * T := by
    have hfour := (isDouble_of_cases hcases).mul_two_pow 2
    norm_num at hfour
    rw [mul_comm]
    exact hfour
  constructor
  · unfold convert
    simp only [within_bind, hT, Option.some.injEq, forall_eq', hr]
    exact ⟨within_timing samples _, hwithin, hcorrected, fun _ _ => within_pure _ _⟩
  · refine ⟨T, { Q := chargeInNWb Q, T := Binary64.mul T 4, pedMean := r.1 }, r.2.2, hT, ?_, htime, hmean⟩
    unfold convert
    simp only [value_bind, hT, Option.bind_some, hr, hQ, value_pure]

theorem convertMode1Hit_eq {V : Backup} {i : ExtVetoIndex} {k : Constants} {samples : List ℚ}
    {r : Reading (ExtVetoPMTHit × Backup)} (h : convertMode1Hit V i k samples = some r) :
    ∃ s, slot? i = some s ∧ r = (do
      let p ← convert k (V s) samples
      pure (p.1, Function.update V s p.2)) := by
  unfold convertMode1Hit at h
  cases hs : slot? i with
  | none => simp [hs] at h
  | some s =>
      refine ⟨s, rfl, ?_⟩
      simpa [hs] using h.symm

/-- `convert_spec` for the function as it is called. -/
theorem convertMode1Hit_spec {V : Backup} {i : ExtVetoIndex} {k : Constants} {samples : List ℚ}
    {r : Reading (ExtVetoPMTHit × Backup)} (hsize : samples.length < 2 ^ 31)
    (h : convertMode1Hit V i k samples = some r) :
    r.Within samples.length ∧
    ∃ T out, (timing samples k.Thr).value = some T ∧ r.value = some out ∧ out.1.T = 4 * T ∧
      ∀ n : Nat, 35 < T → (n : Int) = ⌈T - 5⌉ → out.1.pedMean = mean samples n := by
  obtain ⟨s, _, rfl⟩ := convertMode1Hit_eq h
  obtain ⟨hwithin, T, out, backup', hT, hvalue, htime, hmean⟩ := convert_spec k (V s) hsize
  constructor
  · rw [within_bind]
    exact ⟨hwithin, fun _ _ => within_pure _ _⟩
  · refine ⟨T, (out, Function.update V s backup'), hT, ?_, htime, hmean⟩
    rw [value_bind, hvalue]
    rfl

end Convert

/-- **The time that is wanted**: the interpolated first crossing, in ns. -/
structure IsCrossingTime (samples : List ℚ) (Thr T : ℚ) : Prop where
  none : NoneReaches samples Thr → T = -40
  first : FirstReaching samples Thr 0 → T = 0
  later : ∀ i, 1 ≤ i → FirstReaching samples Thr i →
    T = 4 * crossingAt samples Thr i ∧ 4 * ((i : ℚ) - 1) < T ∧ T ≤ 4 * i

/-- **Exactly when the time is that of the first crossing.** -/
theorem crossingTime_iff (V : Backup) (i : ExtVetoIndex) (k : Constants) (samples : List ℚ)
    (hsize : samples.length < 2 ^ 31) (r : Reading (ExtVetoPMTHit × Backup))
    (h : convertMode1Hit V i k samples = some r) :
    ∃ out, r.value = some out ∧
      (IsCrossingTime samples k.Thr out.1.T ↔
        samples ≠ [] ∧ ∀ j, FirstReaching samples k.Thr j → j = 0 ∨ 1 < j ∧ Kept samples k.Thr j) := by
  obtain ⟨_, T, out, hT, hout, htime, _⟩ := convertMode1Hit_spec hsize h
  refine ⟨out, hout, ?_⟩
  rw [htime]
  obtain ⟨T', hT', hcases⟩ := timing_cases samples k.Thr
  rw [hT, Option.some.injEq] at hT'
  subst hT'
  constructor
  · intro hwanted
    constructor
    · -- nothing is read, and `T` stays at its start value
      rintro rfl
      have hnone : NoneReaches [] k.Thr := fun i hi => absurd hi (Nat.not_lt_zero i)
      have hforty := hwanted.none hnone
      rcases hcases with ⟨_, hzero⟩ | ⟨i, hfirst, _⟩
      · rw [if_pos rfl] at hzero
        linarith
      · exact hfirst.not_none hnone
    · intro j hj
      rcases hcases with ⟨hnone, _⟩ | ⟨i, hfirst, hTi⟩
      · exact absurd hnone hj.not_none
      · obtain rfl := hfirst.unique hj
        rcases Nat.eq_zero_or_pos i with hzero | hpos
        · exact Or.inl hzero
        · obtain ⟨_, hlow, hhigh⟩ := hwanted.later i hpos hj
          right
          by_cases hone : i ≤ 1
          · obtain rfl : i = 1 := by omega
            rw [hTi, if_pos hone] at hlow
            norm_num at hlow
          · rw [hTi, if_neg hone] at hlow hhigh
            have hlate : 1 < i := by omega
            exact ⟨hlate, (hfirst.kept_iff hlate hsize).mp ⟨by linarith, by linarith⟩⟩
  · rintro ⟨hne, hkept⟩
    rcases hcases with ⟨hnone, hTi⟩ | ⟨i, hfirst, hTi⟩
    · rw [if_neg hne] at hTi
      refine ⟨fun _ => by linarith, fun h => absurd hnone h.not_none, fun j _ h => absurd hnone h.not_none⟩
    · refine ⟨fun hnone => absurd hnone hfirst.not_none, ?_, ?_⟩
      · intro hzero
        rw [hfirst.unique hzero, if_pos (Nat.zero_le 1)] at hTi
        linarith
      · intro j hj hfirst'
        obtain rfl := hfirst.unique hfirst'
        rcases hkept i hfirst with hzero | ⟨hlate, hkept⟩
        · omega
        · obtain ⟨hlow, hhigh⟩ := (hfirst.kept_iff hlate hsize).mpr hkept
          rw [hTi, if_neg (by omega)]
          exact ⟨rfl, by linarith, by linarith⟩

/-- A pulse that starts at the third sample. -/
theorem crossingTime_third :
    ∃ r out, convertMode1Hit (fun _ => 0) ⟨0, 0, 1, 1⟩ ⟨1, 0⟩ [0, 0, 10] = some r ∧ r.value = some out ∧
      IsCrossingTime [0, 0, 10] (Constants.Thr ⟨1, 0⟩) out.1.T := by
  obtain ⟨out, hout, hiff⟩ := crossingTime_iff (fun _ => 0) ⟨0, 0, 1, 1⟩ ⟨1, 0⟩ [0, 0, 10] (by decide) _ rfl
  have hthird : FirstReaching [0, 0, 10] (Constants.Thr ⟨1, 0⟩) 2 := by
    refine ⟨by decide, by decide +kernel, ?_⟩
    decide +kernel
  refine ⟨_, out, rfl, hout, hiff.mpr ⟨by simp, ?_⟩⟩
  intro j hj
  obtain rfl := hthird.unique hj
  exact Or.inr ⟨by decide, by decide +kernel, by decide +kernel⟩

/-- A crossing between the first two samples is published as one at 0. -/
theorem crossingTime_lost :
    ¬ ∀ (V : Backup) (i : ExtVetoIndex) (k : Constants) (samples : List ℚ) (r : Reading (ExtVetoPMTHit × Backup)),
      convertMode1Hit V i k samples = some r →
      ∃ out, r.value = some out ∧ IsCrossingTime samples k.Thr out.1.T := by
  intro h
  have hcall : ∃ r, convertMode1Hit (fun _ => 0) ⟨0, 0, 1, 1⟩ ⟨1, 0⟩ [0, 10] = some r ∧
      r.value.map (fun p => p.1.T) = some 0 := ⟨_, rfl, by decide +kernel⟩
  obtain ⟨r, hr, hzero⟩ := hcall
  obtain ⟨out, hout, hwanted⟩ := h _ _ _ _ r hr
  have hfirst : FirstReaching [0, 10] (Constants.Thr ⟨1, 0⟩) 1 := by
    refine ⟨by decide, by decide +kernel, ?_⟩
    intro j hj
    obtain rfl : j = 0 := by omega
    decide +kernel
  have hlater := (hwanted.later 1 (le_refl 1) hfirst).2.1
  rw [hout, Option.map_some, Option.some.injEq] at hzero
  rw [hzero] at hlater
  norm_num at hlater

/-! ## The pedestal of a late pulse -/

/-- **The pedestal is clean and the windows lie in the waveform.** The samples of the pedestal are below the threshold,
and so is their mean; the sum of the doubles can reach the threshold by what its steps round off. -/
theorem pedestal_clean (V : Backup) (i : ExtVetoIndex) (c : Constants) (samples : List ℚ)
    (hsize : samples.length < 2 ^ 31) (r : Reading (ExtVetoPMTHit × Backup))
    (h : convertMode1Hit V i c samples = some r) :
    ∃ T out, (timing samples c.Thr).value = some T ∧ r.value = some out ∧ out.1.T = 4 * T ∧
      (35 < T → ∃ first k : Nat, FirstReaching samples c.Thr first ∧ (k : Int) = ⌈T - 5⌉ ∧ 30 < k ∧ k ≤ first ∧
        out.1.pedMean = mean samples k ∧ (∀ j < k, level samples j < c.Thr) ∧
        (∑ j ∈ Finset.range k, level samples j) / k < c.Thr ∧
        out.1.pedMean ≤ Binary64.div (Binary64.total (List.replicate k c.Thr)) k) ∧
      (0 ≤ T → (charge samples out.1.pedMean).Within samples.length ∧
        (recovery samples T c.pedestalDAQ).Within samples.length) ∧
      r.Within samples.length := by
  obtain ⟨hwithin, T, out, hT, hout, htime, hmean⟩ := convertMode1Hit_spec hsize h
  refine ⟨T, out, hT, hout, htime, ?_, ?_, hwithin⟩
  · intro hlate
    obtain ⟨first, k, hfirst, _, hk, hthirty, hle⟩ := late_crossing hsize hT hlate
    have hbelow : ∀ j < k, level samples j < c.Thr := fun j hj => hfirst.before j (by omega)
    have hpos : (0 : ℚ) < k := by exact_mod_cast (by omega : 0 < k)
    refine ⟨first, k, hfirst, hk, hthirty, hle, hmean k hlate hk, hbelow, ?_, ?_⟩
    · -- a mean of values below the threshold
      rw [div_lt_iff₀ hpos]
      calc ∑ j ∈ Finset.range k, level samples j < ∑ j ∈ Finset.range k, c.Thr :=
            Finset.sum_lt_sum_of_nonempty (Finset.nonempty_range_iff.mpr (by omega))
              (fun j hj => hbelow j (Finset.mem_range.mp hj))
        _ = c.Thr * k := by
            rw [Finset.sum_const, Finset.card_range, nsmul_eq_mul, mul_comm]
    · have hsums : Binary64.total (levels samples k) ≤ Binary64.total (List.replicate k c.Thr) := by
        apply Binary64.total_mono
        unfold levels
        rw [List.forall₂_map_left_iff, List.forall₂_iff_get]
        refine ⟨by simp, ?_⟩
        intro j hj _
        rw [List.length_range] at hj
        simpa using (hbelow j hj).le
      rw [hmean k hlate hk]
      exact Binary64.round_mono (div_le_div_of_nonneg_right hsums hpos.le)
  · intro _
    exact ⟨within_charge samples _, within_recovery samples T _⟩

/-- Forty samples before the pulse. -/
theorem pedestal_clean_forty :
    ∃ T out r, convertMode1Hit (fun _ => 0) ⟨0, 0, 1, 1⟩ ⟨1, 0⟩ (List.replicate 40 1 ++ [10, 10]) = some r ∧
      r.value = some out ∧ 35 < T ∧ out.1.T = 4 * T ∧ ∃ k : Nat, 30 < k ∧
        (∑ j ∈ Finset.range k, level (List.replicate 40 1 ++ [10, 10]) j) / k < Constants.Thr ⟨1, 0⟩ := by
  obtain ⟨T, out, hT, hout, htime, hlate, _⟩ :=
    pedestal_clean (fun _ => 0) ⟨0, 0, 1, 1⟩ ⟨1, 0⟩ (List.replicate 40 1 ++ [10, 10]) (by decide) _ rfl
  have hvalue : (timing (List.replicate 40 1 ++ [10, 10]) (Constants.Thr ⟨1, 0⟩)).value.map (fun T => decide (35 < T))
      = some true := by decide +kernel
  rw [hT, Option.map_some, Option.some.injEq, decide_eq_true_eq] at hvalue
  obtain ⟨_, k, _, _, hthirty, _, _, _, hclean, _⟩ := hlate hvalue
  exact ⟨T, out, _, rfl, hout, hvalue, htime, k, hthirty, hclean⟩

/-- Forty samples of 8 counts, and a threshold a little above them. -/
def flatPedestal : List ℚ := List.replicate 40 8 ++ [100]

/-- Three counts, and 2.442 mV. -/
def tightThreshold : Constants := ⟨Binary64.round (2442 / 1000), 3⟩

/-- **The mean can reach the threshold**: each of the 34 samples is below it, but their rounded sum is not small enough. -/
theorem pedestal_reaches :
    ¬ ∀ (V : Backup) (i : ExtVetoIndex) (c : Constants) (samples : List ℚ) (r : Reading (ExtVetoPMTHit × Backup)),
      samples.length < 2 ^ 31 → convertMode1Hit V i c samples = some r →
      ∃ T out, (timing samples c.Thr).value = some T ∧ r.value = some out ∧ (35 < T → out.1.pedMean < c.Thr) := by
  intro h
  have hcall : ∃ r, convertMode1Hit (fun _ => 0) ⟨0, 0, 1, 1⟩ tightThreshold flatPedestal = some r ∧
      r.value.map (fun p => decide (p.1.pedMean < tightThreshold.Thr)) = some false := ⟨_, rfl, by decide +kernel⟩
  obtain ⟨r, hr, hmean⟩ := hcall
  obtain ⟨T, out, hT, hout, hbelow⟩ := h _ _ _ _ r (by decide) hr
  have hlate : (timing flatPedestal tightThreshold.Thr).value.map (fun T => decide (35 < T)) = some true := by
    decide +kernel
  rw [hT, Option.map_some, Option.some.injEq, decide_eq_true_eq] at hlate
  rw [hout, Option.map_some, Option.some.injEq, decide_eq_false_iff_not] at hmean
  exact hmean (hbelow hlate)

end ExtVetofa250Converter

end BdxReco
