import BdxReco.DAQ.Event
import BdxReco.Lib.Binary64
import BdxReco.Lib.Logged
import Mathlib.Algebra.Order.Monoid.WithTop
import Mathlib.Analysis.SpecialFunctions.Trigonometric.Basic

/-!
# `DAQ.CrossCorrelation` — the correlation of the waveforms with a sine and with a signal

`fa250Mode1CalibPedSubCrossCorrelation_factory` correlates every waveform with two sines and with the shape of a signal
and sums up. What is done to a waveform before that is done in doubles, and decides what is read and divided by. The
functions and the sums have numbers of an ordered field, a value that is not a number is `⊥`, and the log has the
accesses to the samples and the divisions.

`defined_iff` says for which waveforms these are all in order. `excluded_no_influence` compares two runs, and says which
samples do not matter.
-/

namespace BdxReco

namespace CrossCorrelationFactory

/-- What has a precondition. -/
inductive Event (K : Type) where
  /-- `data[index]`, of a vector of this size. -/
  | read (index size : Nat)
  | divide (divisor : K)

/-- The precondition. -/
def Event.Ok {K : Type} [Zero K] : Event K → Prop
  | .read index size => index < size
  | .divide divisor => divisor ≠ 0

/-! ## `evnt` -/

section Definitions

variable {K : Type} [Field K] [LinearOrder K]

def get (data : List ℚ) (jj : Nat) : Logged (Event K) ℚ := .event (.read jj data.length) data[jj]?

def div (a b : K) : Logged (Event K) K := .event (.divide b) (if b = 0 then none else some (a / b))

/-- A division of doubles. -/
def quotient (a b : ℚ) : Logged (Event K) ℚ :=
  .event (.divide (b : K)) (if b = 0 then none else some (Binary64.div a b))

/-! The members, as `init` sets them. -/

def T1 : ℚ := 380

def T2 : ℚ := 600

def tao : ℚ := 30

def A : ℚ := 2

/-- The functions that are correlated with, and the number π. They have a value where they are used. -/
structure Shapes (K : Type) [Field K] where
  f1 : K → K → K → K → K → Logged (Event K) K
  f2 : K → K → K → K → K → Logged (Event K) K
  f3 : K → K → K → K → Logged (Event K) K
  pi : K
  f1_total : ∀ x par0 par1 par2 par3, ∃ y, (f1 x par0 par1 par2 par3).value = some y
  f2_total : ∀ x par0 par1 par2 par3, ∃ y, (f2 x par0 par1 par2 par3).value = some y
  f3_total : ∀ x par0, ∃ y, (f3 x par0 (tao : ℚ) (A : ℚ)).value = some y

/-- The sine parameters of a waveform. -/
structure Sine where
  tMin : ℚ
  fMin : ℚ
  tMax : ℚ
  fMax : ℚ

/-- The sine parameters after a sample, taken at the time `t`. -/
def Sine.after (s : Sine) (t x : ℚ) : Sine :=
  let s : Sine := if x > s.fMax then { s with fMax := x, tMax := t } else s
  if x < s.fMin then { s with fMin := x, tMin := t } else s

/-- The loop that finds the sine parameters. -/
def findSine (dT : ℚ) (data : List ℚ) : Logged (Event K) Sine := do
  let first ← get data 0
  (List.range data.length).foldlM (fun s jj => do
    let x ← get data jj
    pure (s.after (Binary64.mul jj dT) x)) { tMin := 0, fMin := first, tMax := 0, fMax := first }

/-- `data[jj] = (data[jj] - mid) / f_max`. -/
def normaliseAt (mid fMax : ℚ) (data : List ℚ) (jj : Nat) : Logged (Event K) (List ℚ) := do
  let x ← get data jj
  let y ← quotient (Binary64.sub x mid) fMax
  pure (data.set jj y)

/-- The loop that normalises the waveform in its place. -/
def normalise (mid fMax : ℚ) (data : List ℚ) : Logged (Event K) (List ℚ) :=
  Logged.breakLoop (fMax = 0) (normaliseAt mid fMax) data (List.range data.length)

/-- The broken channels. -/
def Excluded (c : Csc) : Prop :=
  (c.slot = 1 ∧ c.channel = 2) ∨ (c.slot = 3 ∧ c.channel = 14) ∨ (c.slot = 3 ∧ c.channel = 15) ∨
    (c.slot = 2 ∧ c.channel = 15)

instance (c : Csc) : Decidable (Excluded c) := inferInstanceAs (Decidable (_ ∨ _))

/-- The channels of the calorimeter. -/
def Calo (c : Csc) : Prop := (c.slot = 2 ∧ c.channel > 4) ∨ c.slot > 2

instance (c : Csc) : Decidable (Calo c) := inferInstanceAs (Decidable (_ ∨ _))

/-- Add a term to the sum, and to that of the calorimeter, for which it is computed once more. -/
def addTerm {M : Type} [Add M] (c : Csc) (term : Nat → Logged (Event K) M) (crosscorrelation : M × M) (jj : Nat) :
    Logged (Event K) (M × M) := do
  let x ← term jj
  if Calo c then
    let y ← term jj
    pure (crosscorrelation.1 + x, crosscorrelation.2 + y)
  else pure (crosscorrelation.1 + x, crosscorrelation.2)

/-- The three loops that correlate. -/
def correlate {M : Type} [Zero M] [Add M] (c : Csc) (term : Nat → Logged (Event K) M) (n : Nat) :
    Logged (Event K) (M × M) :=
  Logged.breakLoop (Excluded c) (addTerm c term) (0, 0) (List.range n)

/-- `(data[jj] - ped) * this->f3(jj * dT,t_0,tao,A) * dT`. -/
def signalTerm (S : Shapes K) (dT : ℚ) (data : List ℚ) (ped : WithBot ℚ) (t0 : ℚ) (jj : Nat) :
    Logged (Event K) (WithBot K) := do
  let x ← get data jj
  let y ← S.f3 (Binary64.mul jj dT : ℚ) t0 (tao : ℚ) (A : ℚ)
  pure (ped.map (fun ped => (Binary64.sub x ped : ℚ) * y * dT))

/-- `data[jj] * this->f1(jj * dT,1,2 * TMath::Pi() / T1,t_min,0) * dT`, and the same for `f2` and `T2`. -/
def sineTerm (f : K → K → K → K → K → Logged (Event K) K) (pi : K) (T dT : ℚ) (data : List ℚ) (tMin : ℚ) (jj : Nat) :
    Logged (Event K) K := do
  let x ← get data jj
  let omega ← div (2 * pi) (T : K)
  let y ← f (Binary64.mul jj dT : ℚ) 1 omega tMin 0
  pure (x * y * dT)

/-- What a waveform adds to the totals, and the amplitude that decides to which. -/
structure Correlation (K : Type) where
  crosscorrelation : K
  crosscorrelationCalo : K
  crosscorrelation3 : WithBot K
  crosscorrelation6 : WithBot K
  fMax : ℚ

/-- A value that is not a number, if it is not determined. -/
def orNaN : Option ℚ → WithBot ℚ
  | none => ⊥
  | some x => x

/-- A normalised waveform, and what has been found out about it. -/
structure Normalised where
  tMin : ℚ
  tMax : ℚ
  fMax : ℚ
  data : List ℚ
  ped : WithBot ℚ

/-- The body of the loop over the waveforms, up to the correlations. -/
def prepare (dT : ℚ) (data : List ℚ) : Logged (Event K) Normalised := do
  let s ← findSine dT data
  let mid ← quotient (Binary64.add s.fMax s.fMin) 2
  let fMax := Binary64.sub s.fMax mid
  let data ← normalise mid fMax data
  let ped ← (quotient (Binary64.sub s.fMin mid) fMax).settled
  pure { tMin := s.tMin, tMax := s.tMax, fMax, data, ped := orNaN ped }

/-- The body of the loop over the waveforms, up to its sums. -/
def correlations (S : Shapes K) (c : Csc) (dT : ℚ) (data : List ℚ) : Logged (Event K) (Correlation K) := do
  let w ← prepare dT data
  let t0 := Binary64.sub w.tMax (2 * tao)
  let signal ← correlate c (signalTerm S dT w.data w.ped t0) w.data.length
  let deltaT1 ← quotient T1 dT
  let deltaT2 ← quotient T2 dT
  let sine1 ← correlate c (sineTerm S.f1 S.pi T1 dT w.data w.tMin) (Binary64.toInt deltaT1).toNat
  let sine2 ← correlate c (sineTerm S.f2 S.pi T2 dT w.data w.tMin) (Binary64.toInt deltaT2).toNat
  pure { crosscorrelation := if sine1.1 > sine2.1 then sine1.1 else sine2.1
         crosscorrelationCalo := if sine1.2 > sine2.2 then sine1.2 else sine2.2
         crosscorrelation3 := signal.1
         crosscorrelation6 := signal.2
         fMax := w.fMax }

/-- `fa250Mode1CalibPedSubCrossCorrelation`. -/
structure CrossCorrelation (K : Type) where
  crossCorrSineTot : K
  crossCorrSignalTot : WithBot K
  crossCorrSine5mVth : K
  crossCorrSignal5mVth : WithBot K
  crossCorrSineCalo : K
  crossCorrSignalCalo : WithBot K
  crossCorrSine5mVthCalo : K
  crossCorrSignal5mVthCalo : WithBot K

def CrossCorrelation.zero : CrossCorrelation K := ⟨0, 0, 0, 0, 0, 0, 0, 0⟩

/-- The sums of the body. -/
def CrossCorrelation.add (xcorr : CrossCorrelation K) (c : Correlation K) : CrossCorrelation K where
  crossCorrSineTot := xcorr.crossCorrSineTot + c.crosscorrelation
  crossCorrSignalTot := xcorr.crossCorrSignalTot + c.crosscorrelation3
  crossCorrSine5mVth :=
    if c.fMax > 5 then xcorr.crossCorrSine5mVth + c.crosscorrelation else xcorr.crossCorrSine5mVth
  crossCorrSignal5mVth :=
    if c.fMax > 5 then xcorr.crossCorrSignal5mVth + c.crosscorrelation3 else xcorr.crossCorrSignal5mVth
  crossCorrSineCalo := xcorr.crossCorrSineCalo + c.crosscorrelationCalo
  crossCorrSignalCalo := xcorr.crossCorrSignalCalo + c.crosscorrelation6
  crossCorrSine5mVthCalo :=
    if c.fMax > 5 then xcorr.crossCorrSine5mVthCalo + c.crosscorrelationCalo else xcorr.crossCorrSine5mVthCalo
  crossCorrSignal5mVthCalo :=
    if c.fMax > 5 then xcorr.crossCorrSignal5mVthCalo + c.crosscorrelation6 else xcorr.crossCorrSignal5mVthCalo

def turn (S : Shapes K) (xcorr : CrossCorrelation K) (wave : Fa250Mode1CalibPedSubHit) :
    Logged (Event K) (CrossCorrelation K) := do
  let c ← correlations S wave.channel wave.dT wave.samples
  pure (xcorr.add c)

def evnt (S : Shapes K) (waves : List Fa250Mode1CalibPedSubHit) :
    Logged (Event K) (JError × List (CrossCorrelation K)) :=
  if waves.length = 0 then pure (.objectNotAvailable, [])
  else do
    let xcorr ← waves.foldlM (turn S) .zero
    pure (.noError, [xcorr])

end Definitions

/-! ## The functions of the source -/

noncomputable section

def f1 (x par0 par1 par2 par3 : ℝ) : Logged (Event ℝ) ℝ := pure (-par0 * Real.cos (par1 * (x - par2)) + par3)

def f2 (x par0 par1 par2 par3 : ℝ) : Logged (Event ℝ) ℝ := pure (-par0 * Real.cos (par1 * (x - par2)) + par3)

/-- The signal, with its starting time, its `tao` and its amplitude. -/
def f3 (x par0 par1 par2 : ℝ) : Logged (Event ℝ) ℝ :=
  if x < par0 then pure 0
  else do
    let exponent ← div (-(x - par0)) par1
    let norm ← div 1 (4 * Real.exp (-2) * par1 ^ 2)
    pure ((x - par0) ^ 2 * Real.exp exponent * par2 * norm)

end

/-! ## Reads and divisions -/

theorem value_get {K : Type} {data : List ℚ} {jj : Nat} (h : jj < data.length) :
    (get data jj : Logged (Event K) ℚ).value = some data[jj] := by
  unfold get
  rw [Logged.value_event, List.getElem?_eq_getElem h]

section Reads

variable {K : Type} [Field K]

theorem allowed_get {data : List ℚ} {jj : Nat} :
    (get data jj : Logged (Event K) ℚ).Allowed Event.Ok ↔ jj < data.length := by
  unfold get
  rw [Logged.allowed_event]
  rfl

theorem value_quotient (a : ℚ) {b : ℚ} (h : b ≠ 0) :
    (quotient a b : Logged (Event K) ℚ).value = some (Binary64.div a b) := by
  unfold quotient
  rw [Logged.value_event, if_neg h]

variable [LinearOrder K]

theorem allowed_div {a b : K} : (div a b).Allowed Event.Ok ↔ b ≠ 0 := by
  unfold div
  rw [Logged.allowed_event]
  rfl

theorem value_div (a : K) {b : K} (h : b ≠ 0) : (div a b).value = some (a / b) := by
  unfold div
  rw [Logged.value_event, if_neg h]

variable [IsStrictOrderedRing K]

theorem allowed_quotient {a b : ℚ} : (quotient a b : Logged (Event K) ℚ).Allowed Event.Ok ↔ b ≠ 0 := by
  unfold quotient
  rw [Logged.allowed_event]
  exact Rat.cast_ne_zero

end Reads

/-! ## The sine parameters -/

section Sine

/-- The largest and the smallest sample. -/
structure Spans (s : Sine) (data : List ℚ) : Prop where
  max_mem : s.fMax ∈ data
  le_max : ∀ x ∈ data, x ≤ s.fMax
  min_mem : s.fMin ∈ data
  min_le : ∀ x ∈ data, s.fMin ≤ x

/-- The same, as far as the loop has come. -/
structure SpansUpTo (data : List ℚ) (jj : Nat) (s : Sine) : Prop where
  max_mem : s.fMax ∈ data
  le_max : ∀ i (hi : i < data.length), i < jj → data[i] ≤ s.fMax
  min_mem : s.fMin ∈ data
  min_le : ∀ i (hi : i < data.length), i < jj → s.fMin ≤ data[i]

theorem Sine.after_fMax (s : Sine) (t x : ℚ) : (s.after t x).fMax = max s.fMax x := by
  unfold Sine.after
  by_cases hmax : x > s.fMax
  · rw [if_pos hmax, max_eq_right hmax.le]
    simp only
    split <;> rfl
  · rw [if_neg hmax, max_eq_left (not_lt.mp hmax)]
    simp only
    split <;> rfl

theorem Sine.after_fMin (s : Sine) (t x : ℚ) : (s.after t x).fMin = min s.fMin x := by
  have hkeep : (if x > s.fMax then { s with fMax := x, tMax := t } else s : Sine).fMin = s.fMin := by
    split <;> rfl
  unfold Sine.after
  simp only [hkeep]
  by_cases hmin : x < s.fMin
  · rw [if_pos hmin, min_eq_right hmin.le]
  · rw [if_neg hmin, min_eq_left (not_lt.mp hmin)]
    exact hkeep

/-- One turn of the loop. -/
theorem SpansUpTo.succ {data : List ℚ} {jj : Nat} (hjj : jj < data.length) {s : Sine} (h : SpansUpTo data jj s)
    (t : ℚ) : SpansUpTo data (jj + 1) (s.after t data[jj]) := by
  constructor
  · rw [Sine.after_fMax]
    rcases max_choice s.fMax data[jj] with hmax | hmax
    · rw [hmax]
      exact h.max_mem
    · rw [hmax]
      exact List.getElem_mem hjj
  · intro i hi hlt
    rw [Sine.after_fMax]
    rcases Nat.lt_succ_iff_lt_or_eq.mp hlt with hlt | rfl
    · exact (h.le_max i hi hlt).trans (le_max_left _ _)
    · exact le_max_right _ _
  · rw [Sine.after_fMin]
    rcases min_choice s.fMin data[jj] with hmin | hmin
    · rw [hmin]
      exact h.min_mem
    · rw [hmin]
      exact List.getElem_mem hjj
  · intro i hi hlt
    rw [Sine.after_fMin]
    rcases Nat.lt_succ_iff_lt_or_eq.mp hlt with hlt | rfl
    · exact (min_le_left _ _).trans (h.min_le i hi hlt)
    · exact min_le_right _ _

variable {K : Type}

theorem findSine_spec (dT : ℚ) {data : List ℚ} (hne : data ≠ []) :
    ∃ s, (findSine dT data : Logged (Event K) Sine).value = some s ∧ Spans s data := by
  have hpos : 0 < data.length := List.length_pos_iff.mpr hne
  have hstart : SpansUpTo data 0 ⟨0, data[0], 0, data[0]⟩ :=
    ⟨List.getElem_mem hpos, fun _ _ hi => absurd hi (Nat.not_lt_zero _), List.getElem_mem hpos,
      fun _ _ hi => absurd hi (Nat.not_lt_zero _)⟩
  have hstep : ∀ jj < data.length, ∀ s, SpansUpTo data jj s → ∃ s',
      (do
        let x ← get data jj
        pure (s.after (Binary64.mul jj dT) x) : Logged (Event K) Sine).value = some s' ∧ SpansUpTo data (jj + 1) s' := by
    intro jj hjj s hspans
    refine ⟨_, ?_, hspans.succ hjj (Binary64.mul jj dT)⟩
    rw [Logged.value_bind, value_get hjj]
    rfl
  obtain ⟨s, hs, hspans⟩ := Logged.value_range (SpansUpTo data) hstep hstart
  refine ⟨s, ?_, hspans.max_mem, ?_, hspans.min_mem, ?_⟩
  · unfold findSine
    rw [Logged.value_bind, value_get hpos]
    exact hs
  · intro x hx
    obtain ⟨i, hi, rfl⟩ := List.getElem_of_mem hx
    exact hspans.le_max i hi hi
  · intro x hx
    obtain ⟨i, hi, rfl⟩ := List.getElem_of_mem hx
    exact hspans.min_le i hi hi

theorem allowed_findSine [Field K] (dT : ℚ) {data : List ℚ} :
    (findSine dT data : Logged (Event K) Sine).Allowed Event.Ok ↔ data ≠ [] := by
  unfold findSine
  rw [Logged.allowed_bind, allowed_get, List.length_pos_iff]
  refine and_iff_left_of_imp (fun hne first _ => ?_)
  refine Logged.allowed_foldlM_of_forall (fun _ => True) ?_ ?_ trivial
  · intro s _ jj hjj
    have hjj := List.mem_range.mp hjj
    rw [Logged.allowed_bind_of_value (value_get hjj)]
    exact ⟨allowed_get.mpr hjj, Logged.allowed_pure _⟩
  · intro s _ jj hjj
    have hjj := List.mem_range.mp hjj
    refine ⟨s.after (Binary64.mul jj dT) data[jj], ?_, trivial⟩
    rw [Logged.value_bind, value_get hjj]
    rfl

end Sine

/-! ## The normalisation -/

section Normalise

variable {K : Type} [Field K]

theorem value_normaliseAt (mid : ℚ) {fMax : ℚ} (hfMax : fMax ≠ 0) {data : List ℚ} {jj : Nat} (hjj : jj < data.length) :
    (normaliseAt mid fMax data jj : Logged (Event K) (List ℚ)).value
      = some (data.set jj (Binary64.div (Binary64.sub data[jj] mid) fMax)) := by
  unfold normaliseAt
  rw [Logged.value_bind, value_get hjj, Option.bind_some, Logged.value_bind, value_quotient _ hfMax]
  rfl

variable [LinearOrder K] [IsStrictOrderedRing K]

theorem allowed_normaliseAt (mid : ℚ) {fMax : ℚ} (hfMax : fMax ≠ 0) {data : List ℚ} {jj : Nat}
    (hjj : jj < data.length) : (normaliseAt mid fMax data jj : Logged (Event K) (List ℚ)).Allowed Event.Ok := by
  unfold normaliseAt
  rw [Logged.allowed_bind_of_value (value_get hjj), Logged.allowed_bind_of_value (value_quotient _ hfMax)]
  exact ⟨allowed_get.mpr hjj, allowed_quotient.mpr hfMax, Logged.allowed_pure _⟩

/-- The normalisation reads what is there, divides by an amplitude that is not 0, and keeps the length. -/
theorem normalise_spec (mid fMax : ℚ) (data : List ℚ) :
    (normalise mid fMax data : Logged (Event K) (List ℚ)).Allowed Event.Ok ∧
      ∃ data', (normalise mid fMax data : Logged (Event K) (List ℚ)).value = some data' ∧
        data'.length = data.length := by
  unfold normalise
  by_cases hzero : fMax = 0
  · rw [Logged.breakLoop_of_stop hzero]
    exact ⟨Logged.allowed_pure _, data, rfl, rfl⟩
  · rw [Logged.breakLoop_of_not hzero]
    -- the length is what the turns keep
    have hturn : ∀ d : List ℚ, d.length = data.length → ∀ jj < data.length,
        ∃ d', (normaliseAt mid fMax d jj : Logged (Event K) (List ℚ)).value = some d' ∧ d'.length = data.length := by
      intro d hd jj hjj
      rw [← hd] at hjj
      exact ⟨_, value_normaliseAt mid hzero hjj, by rw [List.length_set, hd]⟩
    constructor
    · refine Logged.allowed_foldlM_of_forall (fun d => d.length = data.length) ?_ ?_ rfl
      · intro d hd jj hjj
        rw [List.mem_range, ← hd] at hjj
        exact allowed_normaliseAt mid hzero hjj
      · intro d hd jj hjj
        exact hturn d hd jj (List.mem_range.mp hjj)
    · exact Logged.value_range (fun _ d => d.length = data.length) (fun jj hjj d hd => hturn d hd jj hjj) rfl

end Normalise

/-! ## The correlation -/

section Correlate

variable {K M : Type} [AddMonoid M] {c : Csc} {term : Nat → Logged (Event K) M} {n : Nat}

theorem value_addTerm {jj : Nat} {y : M} (hy : (term jj).value = some y) (r : M × M) :
    (addTerm c term r jj).value = some (r.1 + y, if Calo c then r.2 + y else r.2) := by
  unfold addTerm
  rw [Logged.value_bind, hy, Option.bind_some]
  by_cases hcalo : Calo c
  · rw [if_pos hcalo, if_pos hcalo, Logged.value_bind, hy]
    rfl
  · rw [if_neg hcalo, if_neg hcalo]
    rfl

/-- **A correlation** is 0 for a broken channel, and 0 for the calorimeter outside of it. -/
theorem correlate_spec (hterm : ¬ Excluded c → ∀ jj < n, ∃ y, (term jj).value = some y) :
    ∃ r, (correlate c term n).value = some r ∧ (Excluded c → r = (0, 0)) ∧ (¬ Calo c → r.2 = 0) := by
  unfold correlate
  by_cases hex : Excluded c
  · rw [Logged.breakLoop_of_stop hex]
    exact ⟨(0, 0), rfl, fun _ => rfl, fun _ => rfl⟩
  · rw [Logged.breakLoop_of_not hex]
    have hturn : ∀ jj < n, ∀ r : M × M, (¬ Calo c → r.2 = 0) →
        ∃ r', (addTerm c term r jj).value = some r' ∧ (¬ Calo c → r'.2 = 0) := by
      intro jj hjj r hr
      obtain ⟨y, hy⟩ := hterm hex jj hjj
      refine ⟨_, value_addTerm hy r, ?_⟩
      intro hcalo
      rw [if_neg hcalo]
      exact hr hcalo
    obtain ⟨r, hr, hcalo⟩ := Logged.value_range (fun _ (r : M × M) => ¬ Calo c → r.2 = 0) hturn (b := (0, 0))
      (fun _ => rfl)
    exact ⟨r, hr, fun h => absurd h hex, hcalo⟩

variable [Zero K]

theorem allowed_addTerm {jj : Nat} (hterm : (term jj).Allowed Event.Ok → ∃ y, (term jj).value = some y) (r : M × M) :
    (addTerm c term r jj).Allowed Event.Ok ↔ (term jj).Allowed Event.Ok := by
  unfold addTerm
  rw [Logged.allowed_bind]
  refine and_iff_left_of_imp (fun hallowed x _ => ?_)
  by_cases hcalo : Calo c
  · obtain ⟨y, hy⟩ := hterm hallowed
    rw [if_pos hcalo, Logged.allowed_bind_of_value hy]
    exact ⟨hallowed, Logged.allowed_pure _⟩
  · rw [if_neg hcalo]
    exact Logged.allowed_pure _

/-- The events of a correlation, whose terms have the first `m` samples. -/
theorem allowed_correlate {m : Nat} (hallowed : ∀ jj, (term jj).Allowed Event.Ok ↔ jj < m)
    (hvalue : ∀ jj < m, ∃ y, (term jj).value = some y) :
    (correlate c term n).Allowed Event.Ok ↔ (Excluded c ∨ n ≤ m) := by
  have hterm : ∀ jj, (term jj).Allowed Event.Ok → ∃ y, (term jj).value = some y :=
    fun jj h => hvalue jj ((hallowed jj).mp h)
  unfold correlate
  by_cases hex : Excluded c
  · rw [Logged.breakLoop_of_stop hex]
    exact iff_of_true (Logged.allowed_pure _) (Or.inl hex)
  · rw [Logged.breakLoop_of_not hex, Logged.allowed_foldlM (fun _ => True) (Q := fun jj => jj < m) ?_ ?_ trivial]
    · simp only [hex, false_or, List.mem_range]
      constructor
      · intro h
        by_contra hlt
        exact absurd (h m (not_le.mp hlt)) (lt_irrefl m)
      · intro hle jj hjj
        exact hjj.trans_le hle
    · intro r _ jj _
      rw [allowed_addTerm (hterm jj), hallowed]
    · intro r _ jj _ hjj
      obtain ⟨y, hy⟩ := hvalue jj hjj
      exact ⟨_, value_addTerm hy r, trivial⟩

end Correlate

/-! ## The terms -/

section Terms

variable {K : Type} [Field K] {S : Shapes K} {dT : ℚ} {data : List ℚ}

theorem value_signalTerm {ped : WithBot ℚ} {t0 : ℚ} {jj : Nat} (hjj : jj < data.length) :
    ∃ y, (signalTerm S dT data ped t0 jj).value = some y := by
  obtain ⟨y, hy⟩ := S.f3_total (Binary64.mul jj dT : ℚ) t0
  refine ⟨ped.map (fun ped => (Binary64.sub data[jj] ped : ℚ) * y * dT), ?_⟩
  unfold signalTerm
  rw [Logged.value_bind, value_get hjj, Option.bind_some, Logged.value_bind, hy]
  rfl

/-- The divisions of the functions are in order. -/
structure Shapes.Safe (S : Shapes K) : Prop where
  f1 : ∀ x par0 par1 par2 par3, (S.f1 x par0 par1 par2 par3).Allowed Event.Ok
  f2 : ∀ x par0 par1 par2 par3, (S.f2 x par0 par1 par2 par3).Allowed Event.Ok
  f3 : ∀ x par0, (S.f3 x par0 (tao : ℚ) (A : ℚ)).Allowed Event.Ok

theorem allowed_signalTerm (hS : S.Safe) {ped : WithBot ℚ} {t0 : ℚ} (jj : Nat) :
    (signalTerm S dT data ped t0 jj).Allowed Event.Ok ↔ jj < data.length := by
  unfold signalTerm
  rw [Logged.allowed_bind, allowed_get]
  refine and_iff_left_of_imp (fun _ x _ => ?_)
  rw [Logged.allowed_bind]
  exact ⟨hS.f3 _ _, fun _ _ => Logged.allowed_pure _⟩

variable [LinearOrder K] {f : K → K → K → K → K → Logged (Event K) K} {pi : K} {T tMin : ℚ}

theorem value_sineTerm (hf : ∀ x par0 par1 par2 par3, ∃ y, (f x par0 par1 par2 par3).value = some y)
    (hT : (T : K) ≠ 0) {jj : Nat} (hjj : jj < data.length) :
    ∃ y, (sineTerm f pi T dT data tMin jj).value = some y := by
  obtain ⟨y, hy⟩ := hf (Binary64.mul jj dT : ℚ) 1 (2 * pi / T) tMin 0
  refine ⟨data[jj] * y * dT, ?_⟩
  unfold sineTerm
  rw [Logged.value_bind, value_get hjj, Option.bind_some, Logged.value_bind, value_div _ hT, Option.bind_some,
    Logged.value_bind, hy]
  rfl

theorem allowed_sineTerm (hf : ∀ x par0 par1 par2 par3, (f x par0 par1 par2 par3).Allowed Event.Ok)
    (hT : (T : K) ≠ 0) (jj : Nat) : (sineTerm f pi T dT data tMin jj).Allowed Event.Ok ↔ jj < data.length := by
  unfold sineTerm
  rw [Logged.allowed_bind, allowed_get]
  refine and_iff_left_of_imp (fun _ x _ => ?_)
  rw [Logged.allowed_bind_of_value (value_div _ hT), allowed_div, Logged.allowed_bind]
  exact ⟨hT, hf _ _ _ _ _, fun _ _ => Logged.allowed_pure _⟩

end Terms

/-! ## A waveform -/

section Parts

variable {K : Type} [Field K] [LinearOrder K]

/-- Nothing, for the totals of all channels or for those of the calorimeter. -/
structure Correlation.Zero (c : Correlation K) : Prop where
  crosscorrelation : c.crosscorrelation = 0
  crosscorrelation3 : c.crosscorrelation3 = 0

structure Correlation.ZeroCalo (c : Correlation K) : Prop where
  crosscorrelationCalo : c.crosscorrelationCalo = 0
  crosscorrelation6 : c.crosscorrelation6 = 0

/-- The turns of the loop over a period. -/
def turns (T dT : ℚ) : Nat := (Binary64.toInt (Binary64.div T dT)).toNat

/-- The samples that the loops over the periods read are there. -/
def LongEnough (c : Csc) (dT : ℚ) (data : List ℚ) : Prop :=
  Excluded c ∨ (turns T1 dT ≤ data.length ∧ turns T2 dT ≤ data.length)

variable (S : Shapes K) {c : Csc} {dT : ℚ} {data : List ℚ}

theorem value_correlations {w : Normalised} (hw : (prepare dT data : Logged (Event K) Normalised).value = some w) 
    {signal : WithBot K × WithBot K}
    (hsignal : (correlate c (signalTerm S dT w.data w.ped (Binary64.sub w.tMax (2 * tao))) w.data.length).value
      = some signal)
    (hdT : dT ≠ 0) {sine1 sine2 : K × K}
    (hsine1 : (correlate c (sineTerm S.f1 S.pi T1 dT w.data w.tMin) (turns T1 dT)).value = some sine1)
    (hsine2 : (correlate c (sineTerm S.f2 S.pi T2 dT w.data w.tMin) (turns T2 dT)).value = some sine2) :
    (correlations S c dT data).value = some
      { crosscorrelation := if sine1.1 > sine2.1 then sine1.1 else sine2.1
        crosscorrelationCalo := if sine1.2 > sine2.2 then sine1.2 else sine2.2
        crosscorrelation3 := signal.1, crosscorrelation6 := signal.2, fMax := w.fMax } := by
  unfold turns at hsine1 hsine2
  unfold correlations
  rw [Logged.value_bind, hw, Option.bind_some, Logged.value_bind, hsignal, Option.bind_some, Logged.value_bind,
    value_quotient _ hdT, Option.bind_some, Logged.value_bind, value_quotient _ hdT, Option.bind_some,
    Logged.value_bind, hsine1, Option.bind_some, Logged.value_bind, hsine2]
  rfl

theorem not_allowed_nil : ¬ (correlations S c dT []).Allowed Event.Ok := by
  unfold correlations prepare
  intro h
  have hfind := (Logged.allowed_bind.mp (Logged.allowed_bind.mp h).1).1
  exact (allowed_findSine dT).mp hfind rfl

theorem value_turn {r : Correlation K} {wave : Fa250Mode1CalibPedSubHit}
    (hr : (correlations S wave.channel wave.dT wave.samples).value = some r) (xcorr : CrossCorrelation K) :
    (turn S xcorr wave).value = some (xcorr.add r) := by
  unfold turn
  rw [Logged.value_bind, hr]
  rfl

end Parts

section Waveform

variable {K : Type} [Field K] [LinearOrder K] [IsStrictOrderedRing K]

theorem T1_ne_zero : ((T1 : ℚ) : K) ≠ 0 := by
  rw [Rat.cast_ne_zero]
  decide

theorem T2_ne_zero : ((T2 : ℚ) : K) ≠ 0 := by
  rw [Rat.cast_ne_zero]
  decide

/-- The middle between two samples, as a double. -/
def middle (max min : ℚ) : ℚ := Binary64.div (Binary64.add max min) 2

/-- The samples differ, and so much that the middle is not rounded to the largest one. -/
def HasAmplitude (data : List ℚ) : Prop :=
  ∃ max ∈ data, ∃ min ∈ data, (∀ x ∈ data, min ≤ x ∧ x ≤ max) ∧ middle max min ≠ max

/-- **The amplitude** of a waveform is not 0 when its samples differ. -/
theorem hasAmplitude_iff {s : Sine} {data : List ℚ} (h : Spans s data) (hdouble : ∀ x ∈ data, Binary64.IsDouble x) :
    Binary64.sub s.fMax (middle s.fMax s.fMin) ≠ 0 ↔ HasAmplitude data := by
  have hmiddle : Binary64.IsDouble (middle s.fMax s.fMin) := Binary64.isDouble_round _
  rw [(hdouble s.fMax h.max_mem).sub_ne_zero_iff hmiddle]
  constructor
  · intro hne
    exact ⟨s.fMax, h.max_mem, s.fMin, h.min_mem, fun x hx => ⟨h.min_le x hx, h.le_max x hx⟩, Ne.symm hne⟩
  · rintro ⟨max, hmax, min, hmin, hspan, hne⟩
    have hmax' : s.fMax = max := le_antisymm (hspan s.fMax h.max_mem).2 (h.le_max max hmax)
    have hmin' : s.fMin = min := le_antisymm (h.min_le min hmin) (hspan s.fMin h.min_mem).1
    rw [hmax', hmin']
    exact Ne.symm hne

/-- A flat waveform has none. -/
theorem not_hasAmplitude {data : List ℚ} {x : ℚ} (hx : Binary64.IsDouble x) (hflat : ∀ y ∈ data, y = x) :
    ¬ HasAmplitude data := by
  rintro ⟨max, hmax, min, hmin, _, hne⟩
  apply hne
  have hdouble : Binary64.IsDouble (x * 2 ^ 1) := hx.mul_two_pow 1
  rw [hflat max hmax, hflat min hmin]
  unfold middle Binary64.div Binary64.add
  rw [← mul_two, ← pow_one (2 : ℚ), hdouble, pow_one, mul_div_cancel_right₀ x two_ne_zero]
  exact hx

/-- A waveform with samples can be prepared; the log is in order if they have an amplitude. -/
theorem prepare_spec (dT : ℚ) {data : List ℚ} (hne : data ≠ []) :
    ∃ w, (prepare dT data : Logged (Event K) Normalised).value = some w ∧ w.data.length = data.length ∧
      ((∀ x ∈ data, Binary64.IsDouble x) →
        ((prepare dT data : Logged (Event K) Normalised).Allowed Event.Ok ↔ HasAmplitude data)) := by
  obtain ⟨s, hs, hspans⟩ := findSine_spec (K := K) dT hne
  have hmid : (quotient (Binary64.add s.fMax s.fMin) 2 : Logged (Event K) ℚ).value = some (middle s.fMax s.fMin) :=
    value_quotient _ two_ne_zero
  obtain ⟨hallowed, data', hdata', hlen⟩ :=
    normalise_spec (K := K) (middle s.fMax s.fMin) (Binary64.sub s.fMax (middle s.fMax s.fMin)) data
  obtain ⟨ped, hped⟩ : ∃ ped, (quotient (Binary64.sub s.fMin (middle s.fMax s.fMin))
      (Binary64.sub s.fMax (middle s.fMax s.fMin)) : Logged (Event K) ℚ).settled.value = some ped :=
    ⟨_, Logged.value_settled _⟩
  refine ⟨⟨s.tMin, s.tMax, Binary64.sub s.fMax (middle s.fMax s.fMin), data', orNaN ped⟩, ?_, hlen, ?_⟩
  · unfold prepare
    rw [Logged.value_bind, hs, Option.bind_some, Logged.value_bind, hmid, Option.bind_some, Logged.value_bind, hdata',
      Option.bind_some, Logged.value_bind, hped]
    rfl
  · intro hdouble
    unfold prepare
    rw [Logged.allowed_bind_of_value hs, Logged.allowed_bind_of_value hmid, Logged.allowed_bind_of_value hdata',
      Logged.allowed_bind_of_value hped, Logged.allowed_settled, allowed_quotient, allowed_quotient,
      hasAmplitude_iff hspans hdouble]
    constructor
    · rintro ⟨_, _, _, hamplitude, _⟩
      exact hamplitude
    · intro hamplitude
      exact ⟨(allowed_findSine dT).mpr hne, two_ne_zero, hallowed, hamplitude, Logged.allowed_pure _⟩

/-- The loop over a period stays in a waveform that is as long. -/
theorem turns_le {T dT : ℚ} (hT : 0 ≤ T / dT) {n : Nat} (h : T / dT ≤ n) : turns T dT ≤ n := by
  have hnonneg : 0 ≤ Binary64.div T dT := Binary64.round_nonneg hT
  unfold turns
  rcases lt_or_ge (Binary64.div T dT) (2 ^ 31) with hlt | hge
  · rw [Binary64.toInt_of_nonneg hnonneg hlt]
    have hfloor : ⌊Binary64.div T dT⌋ ≤ (n : Int) := by
      by_cases hn : n ≤ 2 ^ 53
      · have hround : Binary64.div T dT ≤ n := (Binary64.round_mono h).trans_eq (Binary64.round_natCast hn)
        have hcast := (Int.floor_le (Binary64.div T dT)).trans hround
        exact_mod_cast hcast
      · have hsmall : ⌊Binary64.div T dT⌋ < 2 ^ 31 := Int.floor_lt.mpr (by exact_mod_cast hlt)
        omega
    omega
  · have hlarge : ¬ ⌊Binary64.div T dT⌋ < 2 ^ 31 := by
      rw [Int.floor_lt]
      push_cast
      exact not_lt.mpr hge
    unfold Binary64.toInt Binary64.toSigned
    simp only [if_pos hnonneg]
    rw [if_neg (fun hfits => hlarge hfits.2)]
    omega

variable (S : Shapes K) {c : Csc} {dT : ℚ} {data : List ℚ}

/-- **What is computed for a waveform** with enough samples. -/
theorem correlations_spec (hdT : dT ≠ 0) (hne : data ≠ []) (hlong : LongEnough c dT data) :
    ∃ r, (correlations S c dT data).value = some r ∧ (Excluded c → r.Zero ∧ r.ZeroCalo) ∧
      (¬ Calo c → r.ZeroCalo) := by
  obtain ⟨w, hw, hlen, _⟩ := prepare_spec (K := K) dT hne
  rw [LongEnough, ← hlen] at hlong
  have hsignalTerm : ¬ Excluded c → ∀ jj < w.data.length, ∃ y,
      (signalTerm S dT w.data w.ped (Binary64.sub w.tMax (2 * tao)) jj).value = some y :=
    fun _ jj hjj => value_signalTerm hjj
  have hsineTerm1 : ¬ Excluded c → ∀ jj < turns T1 dT, ∃ y,
      (sineTerm S.f1 S.pi T1 dT w.data w.tMin jj).value = some y :=
    fun hex jj hjj => value_sineTerm S.f1_total T1_ne_zero (hjj.trans_le (hlong.resolve_left hex).1)
  have hsineTerm2 : ¬ Excluded c → ∀ jj < turns T2 dT, ∃ y,
      (sineTerm S.f2 S.pi T2 dT w.data w.tMin jj).value = some y :=
    fun hex jj hjj => value_sineTerm S.f2_total T2_ne_zero (hjj.trans_le (hlong.resolve_left hex).2)
  obtain ⟨signal, hsignal, hsignalEx, hsignalCalo⟩ := correlate_spec hsignalTerm
  obtain ⟨sine1, hsine1, hsine1Ex, hsine1Calo⟩ := correlate_spec hsineTerm1
  obtain ⟨sine2, hsine2, hsine2Ex, hsine2Calo⟩ := correlate_spec hsineTerm2
  refine ⟨_, value_correlations S hw hsignal hdT hsine1 hsine2, ?_, ?_⟩
  · intro hex
    rw [hsignalEx hex, hsine1Ex hex, hsine2Ex hex]
    exact ⟨⟨if_neg (lt_irrefl _), rfl⟩, ⟨if_neg (lt_irrefl _), rfl⟩⟩
  · intro hcalo
    refine ⟨?_, hsignalCalo hcalo⟩
    simp only [hsine1Calo hcalo, hsine2Calo hcalo, gt_iff_lt, lt_irrefl, if_false]

/-- **The log of a waveform** is in order if it is not flat and has enough samples. -/
theorem allowed_correlations (hS : S.Safe) (hdT : dT ≠ 0) (hdouble : ∀ x ∈ data, Binary64.IsDouble x) :
    (correlations S c dT data).Allowed Event.Ok ↔ HasAmplitude data ∧ LongEnough c dT data := by
  by_cases hne : data = []
  · rw [hne]
    refine iff_of_false (not_allowed_nil S) ?_
    rintro ⟨⟨x, hx, _⟩, _⟩
    exact absurd hx List.not_mem_nil
  · obtain ⟨w, hw, hlen, hamplitude⟩ := prepare_spec (K := K) dT hne
    have hsignalValue : ∀ jj < w.data.length, ∃ y,
        (signalTerm S dT w.data w.ped (Binary64.sub w.tMax (2 * tao)) jj).value = some y := fun jj hjj => value_signalTerm hjj
    have hsineValue1 : ∀ jj < w.data.length, ∃ y, (sineTerm S.f1 S.pi T1 dT w.data w.tMin jj).value = some y :=
      fun jj hjj => value_sineTerm S.f1_total T1_ne_zero hjj
    have hsineValue2 : ∀ jj < w.data.length, ∃ y, (sineTerm S.f2 S.pi T2 dT w.data w.tMin jj).value = some y :=
      fun jj hjj => value_sineTerm S.f2_total T2_ne_zero hjj
    have hsignal := allowed_correlate (c := c) (n := w.data.length) (fun jj => allowed_signalTerm hS jj) hsignalValue
    have hsine1 := allowed_correlate (c := c) (n := turns T1 dT)
      (fun jj => allowed_sineTerm hS.f1 T1_ne_zero jj) hsineValue1
    have hsine2 := allowed_correlate (c := c) (n := turns T2 dT)
      (fun jj => allowed_sineTerm hS.f2 T2_ne_zero jj) hsineValue2
    obtain ⟨signal, hsignalSome, _⟩ := correlate_spec (c := c) (fun _ => hsignalValue)
    unfold turns at hsine1 hsine2
    unfold correlations LongEnough turns
    rw [Logged.allowed_bind_of_value hw, Logged.allowed_bind_of_value hsignalSome,
      Logged.allowed_bind_of_value (value_quotient _ hdT), Logged.allowed_bind_of_value (value_quotient _ hdT),
      Logged.allowed_bind, hamplitude hdouble, hsignal, hsine1, ← hlen]
    constructor
    · rintro ⟨hwhole, _, _, _, hlong1, hrest⟩
      refine ⟨hwhole, ?_⟩
      by_cases hex : Excluded c
      · exact Or.inl hex
      · have hle1 := hlong1.resolve_left hex
        obtain ⟨sine1, hsome, _⟩ := correlate_spec (c := c) (fun _ jj hjj => hsineValue1 jj (hjj.trans_le hle1))
        have hlong2 := hsine2.mp (Logged.allowed_bind.mp (hrest sine1 hsome)).1
        exact Or.inr ⟨hle1, hlong2.resolve_left hex⟩
    · rintro ⟨hwhole, hlong⟩
      refine ⟨hwhole, Or.inr (Nat.le_refl _), allowed_quotient.mpr hdT, allowed_quotient.mpr hdT,
        hlong.imp id And.left, fun sine1 _ => ?_⟩
      rw [Logged.allowed_bind, hsine2]
      exact ⟨hlong.imp id And.right, fun _ _ => Logged.allowed_pure _⟩

end Waveform

/-! ## The event -/

section Event

variable {K : Type} [Field K] [LinearOrder K] [IsStrictOrderedRing K] (S : Shapes K)

/-- What a waveform needs. -/
structure Correlatable (wave : Fa250Mode1CalibPedSubHit) : Prop where
  hasAmplitude : HasAmplitude wave.samples
  longEnough : LongEnough wave.channel wave.dT wave.samples

/-- What a waveform comes with: a sampling time, and samples that are doubles. -/
structure Sampled (wave : Fa250Mode1CalibPedSubHit) : Prop where
  dT_pos : 0 < wave.dT
  isDouble : ∀ x ∈ wave.samples, Binary64.IsDouble x

theorem allowed_turn (hS : S.Safe) {wave : Fa250Mode1CalibPedSubHit} (hwave : Sampled wave)
    (xcorr : CrossCorrelation K) : (turn S xcorr wave).Allowed Event.Ok ↔ Correlatable wave := by
  unfold turn
  rw [Logged.allowed_bind, allowed_correlations S hS hwave.dT_pos.ne' hwave.isDouble]
  constructor
  · rintro ⟨⟨hamplitude, hlong⟩, _⟩
    exact ⟨hamplitude, hlong⟩
  · rintro ⟨hamplitude, hlong⟩
    exact ⟨⟨hamplitude, hlong⟩, fun _ _ => Logged.allowed_pure _⟩

/-- **The log of an event** is in order when that of every waveform is. -/
theorem allowed_evnt (hS : S.Safe) {waves : List Fa250Mode1CalibPedSubHit} (hwaves : ∀ wave ∈ waves, Sampled wave) :
    (evnt S waves).Allowed Event.Ok ↔ ∀ wave ∈ waves, Correlatable wave := by
  unfold evnt
  by_cases hempty : waves.length = 0
  · rw [if_pos hempty, List.length_eq_zero_iff.mp hempty]
    exact iff_of_true (Logged.allowed_pure _) (by simp)
  · rw [if_neg hempty, Logged.allowed_bind]
    rw [and_iff_left (fun _ _ => Logged.allowed_pure _)]
    refine Logged.allowed_foldlM (Q := Correlatable) (fun _ => True) ?_ ?_ trivial
    · intro xcorr _ wave hwave
      exact allowed_turn S hS (hwaves wave hwave) xcorr
    · rintro xcorr _ wave hwave ⟨⟨max, hmax, _⟩, hlong⟩
      have hne : wave.samples ≠ [] := List.ne_nil_of_mem hmax
      obtain ⟨r, hr, _⟩ := correlations_spec S (hwaves wave hwave).dT_pos.ne' hne hlong
      exact ⟨xcorr.add r, value_turn S hr xcorr, trivial⟩

end Event

/-! ## All waveforms -/

theorem f1_total (x par0 par1 par2 par3 : ℝ) : ∃ y, (f1 x par0 par1 par2 par3).value = some y := ⟨_, rfl⟩

theorem f2_total (x par0 par1 par2 par3 : ℝ) : ∃ y, (f2 x par0 par1 par2 par3).value = some y := ⟨_, rfl⟩

theorem tao_ne_zero : ((tao : ℚ) : ℝ) ≠ 0 := by
  rw [Rat.cast_ne_zero]
  decide

theorem norm_ne_zero : 4 * Real.exp (-2) * ((tao : ℚ) : ℝ) ^ 2 ≠ 0 := by
  have hexp := (Real.exp_pos (-2)).ne'
  exact mul_ne_zero (mul_ne_zero four_ne_zero hexp) (pow_ne_zero 2 tao_ne_zero)

theorem f3_spec (x par0 : ℝ) :
    (∃ y, (f3 x par0 (tao : ℚ) (A : ℚ)).value = some y) ∧ (f3 x par0 (tao : ℚ) (A : ℚ)).Allowed Event.Ok := by
  unfold f3
  by_cases hbefore : x < par0
  · rw [if_pos hbefore]
    exact ⟨⟨0, rfl⟩, Logged.allowed_pure _⟩
  · rw [if_neg hbefore]
    have hexponent := value_div (-(x - par0)) tao_ne_zero
    have hnorm := value_div 1 norm_ne_zero
    constructor
    · rw [Logged.value_bind, hexponent, Option.bind_some, Logged.value_bind, hnorm]
      exact ⟨_, rfl⟩
    · rw [Logged.allowed_bind_of_value hexponent, Logged.allowed_bind_of_value hnorm]
      exact ⟨allowed_div.mpr tao_ne_zero, allowed_div.mpr norm_ne_zero, Logged.allowed_pure _⟩

/-- The functions of the source. -/
noncomputable def source : Shapes ℝ where
  f1 := f1
  f2 := f2
  f3 := f3
  pi := Real.pi
  f1_total := f1_total
  f2_total := f2_total
  f3_total := fun x par0 => (f3_spec x par0).1

theorem source_safe : source.Safe where
  f1 := fun _ _ _ _ _ => Logged.allowed_pure _
  f2 := fun _ _ _ _ _ => Logged.allowed_pure _
  f3 := fun x par0 => (f3_spec x par0).2

/-- **The correlation is defined**: nothing outside the samples is read, and nothing is divided by 0. -/
def Defined (waves : List Fa250Mode1CalibPedSubHit) : Prop := (evnt source waves).Allowed Event.Ok

/-- **The correlation is defined** exactly for waveforms whose samples have an amplitude and are as many as the loops
    over the periods read. -/
theorem defined_iff {waves : List Fa250Mode1CalibPedSubHit} (hwaves : ∀ wave ∈ waves, Sampled wave) :
    Defined waves ↔ ∀ wave ∈ waves, Correlatable wave :=
  allowed_evnt source source_safe hwaves

/-- A waveform with a signal in its first sample. -/
def signalWave : Fa250Mode1CalibPedSubHit where
  channel := ⟨0, 1, 1⟩
  samples := 50 :: List.replicate 199 0
  dT := 4
  ped := 100
  RMS := 2

theorem sampled_signalWave : Sampled signalWave := by
  refine ⟨by decide +kernel, ?_⟩
  intro x hx
  rcases List.mem_cons.mp hx with rfl | hx
  · decide +kernel
  · rw [List.eq_of_mem_replicate hx]
    decide +kernel

theorem defined_signalWave : Defined [signalWave] := by
  refine (defined_iff ?_).mpr ?_
  · intro wave hwave
    rw [List.mem_singleton.mp hwave]
    exact sampled_signalWave
  · intro wave hwave
    rw [List.mem_singleton.mp hwave]
    have hzero : (0 : ℚ) ∈ List.replicate 199 0 := List.mem_replicate.mpr ⟨by norm_num, rfl⟩
    refine ⟨⟨50, List.mem_cons_self, 0, List.mem_cons_of_mem 50 hzero, ?_, by decide +kernel⟩, Or.inr ?_⟩
    · intro x hx
      rcases List.mem_cons.mp hx with rfl | hx
      · norm_num
      · rw [List.eq_of_mem_replicate hx]
        norm_num
    · decide +kernel

/-- A waveform of a dead channel. -/
def flatWave : Fa250Mode1CalibPedSubHit where
  channel := ⟨0, 1, 1⟩
  samples := List.replicate 200 0
  dT := 4
  ped := 100
  RMS := 2

theorem not_defined_flatWave :
    [flatWave] ≠ [] ∧ (∀ wave ∈ [flatWave], Sampled wave) ∧ ¬ Defined [flatWave] := by
  have hzero : Binary64.IsDouble 0 := by decide +kernel
  have hflat : ∀ y ∈ flatWave.samples, y = 0 := fun y hy => List.eq_of_mem_replicate hy
  have hwaves : ∀ wave ∈ [flatWave], Sampled wave := by
    intro wave hwave
    rw [List.mem_singleton.mp hwave]
    refine ⟨by decide +kernel, ?_⟩
    intro x hx
    rw [hflat x hx]
    exact hzero
  refine ⟨List.cons_ne_nil _ _, hwaves, ?_⟩
  intro h
  have hcorrelatable := (allowed_evnt source source_safe hwaves).mp h flatWave List.mem_cons_self
  exact not_hasAmplitude hzero hflat hcorrelatable.hasAmplitude

/-! ## Two runs -/

section TwoRuns

variable {K : Type} [Field K]

theorem add_zero_correlation {r : Correlation K} (hzero : r.Zero) (hcalo : r.ZeroCalo) (xcorr : CrossCorrelation K) :
    xcorr.add r = xcorr := by
  unfold CrossCorrelation.add
  simp only [hzero.crosscorrelation, hzero.crosscorrelation3, hcalo.crosscorrelationCalo, hcalo.crosscorrelation6,
    add_zero, ite_self]

/-- The totals of the calorimeter. -/
def CrossCorrelation.calo (xcorr : CrossCorrelation K) : K × WithBot K × K × WithBot K :=
  (xcorr.crossCorrSineCalo, xcorr.crossCorrSignalCalo, xcorr.crossCorrSine5mVthCalo, xcorr.crossCorrSignal5mVthCalo)

theorem calo_add_zero {r : Correlation K} (hcalo : r.ZeroCalo) (xcorr : CrossCorrelation K) :
    (xcorr.add r).calo = xcorr.calo := by
  unfold CrossCorrelation.add CrossCorrelation.calo
  simp only [hcalo.crosscorrelationCalo, hcalo.crosscorrelation6, add_zero, ite_self]

theorem calo_add_congr {xcorr xcorr' : CrossCorrelation K} (h : xcorr.calo = xcorr'.calo) (r : Correlation K) :
    (xcorr.add r).calo = (xcorr'.add r).calo := by
  unfold CrossCorrelation.calo at h
  simp only [Prod.mk.injEq] at h
  obtain ⟨hsine, hsignal, hsine5, hsignal5⟩ := h
  unfold CrossCorrelation.add CrossCorrelation.calo
  simp only [hsine, hsignal, hsine5, hsignal5]

end TwoRuns

/-- The loops stay in the waveform. -/
structure InRange (wave : Fa250Mode1CalibPedSubHit) : Prop where
  dT_pos : 0 < wave.dT
  enough : T2 / wave.dT ≤ wave.samples.length

/-- Lists of waveforms of the same channels, whose samples differ in the channels with `P` only. -/
def DifferOnly (P : Csc → Prop) (waves waves' : List Fa250Mode1CalibPedSubHit) : Prop :=
  List.Forall₂ (fun wave wave' => wave.channel = wave'.channel ∧ wave.dT = wave'.dT ∧
    (wave.samples = wave'.samples ∨ P wave.channel)) waves waves'

section Influence

variable (S : Shapes ℝ)

/-- A waveform that the loops stay in is correlated. -/
theorem InRange.correlations {wave : Fa250Mode1CalibPedSubHit} (h : InRange wave) :
    ∃ r, (correlations S wave.channel wave.dT wave.samples).value = some r ∧
      (Excluded wave.channel → r.Zero ∧ r.ZeroCalo) ∧ (¬ Calo wave.channel → r.ZeroCalo) := by
  have hT1 : T1 / wave.dT ≤ wave.samples.length := by
    refine le_trans ?_ h.enough
    have hdT := h.dT_pos
    gcongr
    norm_num [T1, T2]
  have hT2_pos : 0 < T2 / wave.dT := div_pos (by norm_num [T2]) h.dT_pos
  have hne : wave.samples ≠ [] := by
    rw [← List.length_pos_iff]
    exact_mod_cast hT2_pos.trans_le h.enough
  refine correlations_spec S h.dT_pos.ne' hne (Or.inr ?_)
  exact ⟨turns_le (div_nonneg (by norm_num [T1]) h.dT_pos.le) hT1, turns_le hT2_pos.le h.enough⟩

/-- What a relation of the totals needs: equal waveforms keep it, and the waveforms of a channel with `P` do too, whatever
    their samples are. -/
structure Keeps (P : Csc → Prop) (R : CrossCorrelation ℝ → CrossCorrelation ℝ → Prop) : Prop where
  zero : R .zero .zero
  same : ∀ xcorr xcorr' r, R xcorr xcorr' → R (xcorr.add r) (xcorr'.add r)
  other : ∀ c, P c → ∀ xcorr xcorr' r r', R xcorr xcorr' →
    (Excluded c → r.Zero ∧ r.ZeroCalo) → (¬ Calo c → r.ZeroCalo) →
    (Excluded c → r'.Zero ∧ r'.ZeroCalo) → (¬ Calo c → r'.ZeroCalo) → R (xcorr.add r) (xcorr'.add r')

theorem keeps_eq : Keeps Excluded Eq where
  zero := rfl
  same := by
    intro xcorr xcorr' r h
    rw [h]
  other := by
    intro c hex xcorr xcorr' r r' h hr _ hr' _
    rw [add_zero_correlation (hr hex).1 (hr hex).2, add_zero_correlation (hr' hex).1 (hr' hex).2, h]

theorem keeps_calo : Keeps (fun c => Excluded c ∨ ¬ Calo c) (fun xcorr xcorr' => xcorr.calo = xcorr'.calo) where
  zero := rfl
  same := fun _ _ r h => calo_add_congr h r
  other := by
    intro c hP xcorr xcorr' r r' h hex hcalo hex' hcalo'
    have hr : r.ZeroCalo := hP.elim (fun he => (hex he).2) hcalo
    have hr' : r'.ZeroCalo := hP.elim (fun he => (hex' he).2) hcalo'
    rw [calo_add_zero hr, calo_add_zero hr', h]

/-- One turn of the two runs. -/
theorem Keeps.turn {P : Csc → Prop} {R : CrossCorrelation ℝ → CrossCorrelation ℝ → Prop} (h : Keeps P R)
    {wave wave' : Fa250Mode1CalibPedSubHit} (hin : InRange wave) (hin' : InRange wave')
    (hchannel : wave.channel = wave'.channel) (hdT : wave.dT = wave'.dT)
    (hsamples : wave.samples = wave'.samples ∨ P wave.channel) {xcorr xcorr' : CrossCorrelation ℝ}
    (hR : R xcorr xcorr') :
    ∃ y y', (turn S xcorr wave).value = some y ∧ (turn S xcorr' wave').value = some y' ∧ R y y' := by
  obtain ⟨r, hr, hex, hcalo⟩ := hin.correlations S
  obtain ⟨r', hr', hex', hcalo'⟩ := hin'.correlations S
  refine ⟨_, _, value_turn S hr xcorr, value_turn S hr' xcorr', ?_⟩
  rcases hsamples with hsamples | hP
  · have heq : r = r' := by
      rw [hchannel, hdT, hsamples, hr', Option.some.injEq] at hr
      exact hr.symm
    rw [heq]
    exact h.same _ _ r' hR
  · rw [← hchannel] at hex' hcalo'
    exact h.other wave.channel hP _ _ r r' hR hex hcalo hex' hcalo'

/-- **Two runs** on waveforms that differ in the channels with `P` only. -/
theorem Keeps.evnt {P : Csc → Prop} {R : CrossCorrelation ℝ → CrossCorrelation ℝ → Prop} (h : Keeps P R)
    {waves waves' : List Fa250Mode1CalibPedSubHit} (hrange : ∀ wave ∈ waves ++ waves', InRange wave)
    (hdiffer : DifferOnly P waves waves') :
    ∃ e xs xs', (evnt S waves).value = some (e, xs) ∧ (evnt S waves').value = some (e, xs') ∧
      List.Forall₂ R xs xs' := by
  have hlen := hdiffer.length_eq
  have hpairs : List.Forall₂ (fun wave wave' => InRange wave ∧ InRange wave' ∧ wave.channel = wave'.channel ∧
      wave.dT = wave'.dT ∧ (wave.samples = wave'.samples ∨ P wave.channel)) waves waves' := by
    refine List.forall₂_iff_zip.mpr ⟨hlen, fun {wave wave'} hzip => ?_⟩
    have hmem := List.of_mem_zip hzip
    exact ⟨hrange wave (List.mem_append_left _ hmem.1), hrange wave' (List.mem_append_right _ hmem.2),
      (List.forall₂_iff_zip.mp hdiffer).2 hzip⟩
  unfold CrossCorrelationFactory.evnt
  by_cases hempty : waves.length = 0
  · rw [if_pos hempty, if_pos (hlen.symm.trans hempty)]
    exact ⟨_, _, _, rfl, rfl, .nil⟩
  · rw [if_neg hempty, if_neg (fun h => hempty (hlen.trans h))]
    obtain ⟨x, x', hx, hx', hR⟩ := Logged.foldlM_related R
      (fun _ _ _ _ hR ⟨hin, hin', hchannel, hdT, hsamples⟩ => h.turn S hin hin' hchannel hdT hsamples hR) hpairs h.zero
    refine ⟨.noError, [x], [x'], ?_, ?_, .cons hR .nil⟩
    · rw [Logged.value_bind, hx]
      rfl
    · rw [Logged.value_bind, hx']
      rfl

/-- **The broken channels have no influence** on the totals, and the channels outside of the calorimeter have none on
    those of the calorimeter. -/
theorem excluded_no_influence {waves waves' : List Fa250Mode1CalibPedSubHit}
    (hrange : ∀ wave ∈ waves ++ waves', InRange wave) :
    (DifferOnly Excluded waves waves' → ∃ r, (evnt S waves).value = some r ∧ (evnt S waves').value = some r) ∧
    (DifferOnly (fun c => Excluded c ∨ ¬ Calo c) waves waves' →
      ∃ e xs xs', (evnt S waves).value = some (e, xs) ∧ (evnt S waves').value = some (e, xs') ∧
        xs.map CrossCorrelation.calo = xs'.map CrossCorrelation.calo) := by
  constructor
  · intro hdiffer
    obtain ⟨e, xs, xs', hvalue, hvalue', hR⟩ := keeps_eq.evnt S hrange hdiffer
    have hxs : xs = xs' := by rwa [List.forall₂_eq_eq_eq] at hR
    rw [← hxs] at hvalue'
    exact ⟨(e, xs), hvalue, hvalue'⟩
  · intro hdiffer
    obtain ⟨e, xs, xs', hvalue, hvalue', hR⟩ := keeps_calo.evnt S hrange hdiffer
    refine ⟨e, xs, xs', hvalue, hvalue', ?_⟩
    rw [← List.forall₂_eq_eq_eq, List.forall₂_map_left_iff, List.forall₂_map_right_iff]
    exact hR

end Influence

/-- A waveform of a broken channel, all of whose samples are the same. -/
def brokenWave (sample : ℚ) : Fa250Mode1CalibPedSubHit where
  channel := ⟨0, 1, 2⟩
  samples := List.replicate 200 sample
  dT := 4
  ped := 100
  RMS := 2

theorem inRange_broken : ∀ wave ∈ [brokenWave 0, signalWave] ++ [brokenWave 7, signalWave], InRange wave := by
  have hbroken : ∀ sample, InRange (brokenWave sample) := by
    intro sample
    unfold brokenWave
    constructor
    · norm_num
    · rw [List.length_replicate]
      norm_num [T2]
  have hsignal : InRange signalWave := by
    unfold signalWave
    constructor
    · norm_num
    · rw [List.length_cons, List.length_replicate]
      norm_num [T2]
  simp only [List.cons_append, List.nil_append, List.forall_mem_cons, List.not_mem_nil, false_implies, implies_true,
    and_true]
  exact ⟨hbroken 0, hsignal, hbroken 7, hsignal⟩

theorem broken_no_influence :
    ∃ r, (evnt source [brokenWave 0, signalWave]).value = some r ∧
      (evnt source [brokenWave 7, signalWave]).value = some r := by
  apply (excluded_no_influence source inRange_broken).1
  have hbroken : Excluded (brokenWave 0).channel := Or.inl ⟨rfl, rfl⟩
  exact .cons ⟨rfl, rfl, Or.inr hbroken⟩ (.cons ⟨rfl, rfl, Or.inl rfl⟩ .nil)

end CrossCorrelationFactory

end BdxReco
