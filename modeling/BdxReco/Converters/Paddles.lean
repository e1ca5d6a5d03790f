import BdxReco.Converters.Waveform
import BdxReco.Lib.Run
import Mathlib.Tactic.Linarith
import Mathlib.Tactic.Ring

/-!
# `Converters.Paddles` — the waveforms of the paddles

`Paddlesfa250Converter::convertMode1Hit` looks for the first sample over the threshold, takes a pedestal, sums the
charge and finds the time with a constant fraction discriminator: the inverted pulse at half its height is added to
the pulse delayed by two samples, and the time is where the sum changes sign, looked for backwards from the maximum.

The pedestal of an early pulse is the one of the last late pulse of the same paddle, which stands in one of two
`static` variables. `convertSignal_spec` says what a call leaves for a waveform with a signal; what follows from it for
the hits is in `Converters.PaddlesHits`.

Levels, pedestals, the sum of the two pulses and the time are doubles, since comparisons decide on them. The charge is
compared with nothing that has an effect, and is summed exactly.
-/

namespace BdxReco

open Reading

/-- The members of `PaddlesPMTHit` that `convertMode1Hit` sets; `none` is a time that is not determined. -/
structure PaddlesPMTHit where
  Q : ℚ
  T : Option ℚ
  deriving DecidableEq, Repr

namespace Paddlesfa250Converter

def LSB : ℚ := Binary64.round (4884 / 10000)

def Nsamples : Nat := 30

/-! ## `convertMode1Hit` -/

/-- `Tinf`, `Tsup`, `Amp1` and `Amp2`. -/
structure Edge where
  Tinf : ℚ
  Tsup : ℚ
  Amp1 : ℚ
  Amp2 : ℚ
  deriving DecidableEq, Repr

/-- The first sample over the threshold; `edge` is what the four variables have been set to. -/
structure Leading where
  TIndex : Nat
  edge : Option Edge
  deriving DecidableEq, Repr

namespace Leading

def found (samples : List ℚ) (_ : Option Leading) (ii : Nat) (x : ℚ) : Reading (Option Leading) :=
  if ii = 0 then pure (some { TIndex := 0, edge := none })
  else do
    let prev ← get samples (ii - 1 : Nat)
    pure (some { TIndex := ii, edge := some ⟨((ii : ℚ) - 1) * 4, ii * 4, Binary64.mul prev LSB, Binary64.mul x LSB⟩ })

end Leading

/-- "Leading-edge Timing". `T` stays at 0: its computation has been commented out. -/
def leadingEdge (samples : List ℚ) (Thr : ℚ) : Reading (Option Leading) :=
  loopUntil samples (fun x => decide (Binary64.mul x LSB > Thr)) (fun s _ => s) (Leading.found samples) none
    (List.range samples.length)

/-- `Ped_prev_id0` and `Ped_prev_id1`. -/
structure Statics where
  prev0 : ℚ
  prev1 : ℚ
  deriving DecidableEq, Repr

/-- "Pedestal": `Ped` and the static variables. -/
def pedestal (s : Statics) (id : Int) (TIndex : Nat) (samples : List ℚ) : Reading (ℚ × Statics) :=
  if TIndex < Nsamples ∧ id = 0 then pure (s.prev0, s)
  else if TIndex < Nsamples ∧ id = 1 then pure (s.prev1, s)
  else do
    let sum ← loop samples (fun Ped _ x => Binary64.add Ped (Binary64.mul x LSB)) 0 (interval 0 ((Nsamples : Int) - 1))
    let Ped := Binary64.div sum 30
    pure (Ped, { prev0 := if id = 0 then Ped else s.prev0, prev1 := if id = 1 then Ped else s.prev1 })

/-- The largest sample so far and the window around it. -/
structure Maximum where
  index : Int
  infIndex : Int
  supIndex : Int
  deriving DecidableEq, Repr

/-- The window of the recovery, 12 nsec to both sides. -/
def windowAround (size : Nat) (ii : Int) : Maximum where
  index := ii
  infIndex := if ii - 3 < 0 then 0 else ii - 3
  supIndex := if ii + 3 > (size : Int) - 1 then size - 1 else ii + 3

/-- "Charge and Maximum": `Q`, then `max` and the indices. -/
def chargeAndMaximum (samples : List ℚ) (Ped : ℚ) : Reading (ℚ × ℚ × Maximum) :=
  loop samples (fun s ii x =>
      (s.1 + (Binary64.mul x LSB - Ped),
        if Binary64.mul x LSB > s.2.1 then (Binary64.mul x LSB, windowAround samples.length ii) else s.2))
    (0, 0, ⟨-1, -1, -1⟩) (interval 0 (samples.length - 1))

/-- "to recover most of the (few) strange signals". -/
def recovered (samples : List ℚ) (Ped T Q : ℚ) (m : Maximum) : Reading ℚ :=
  if T > 0 ∧ Q < 0 then loop samples (fun Q _ x => Q + (Binary64.mul x LSB - Ped)) 0 (interval m.infIndex m.supIndex)
  else pure Q

def f : ℚ := 1 / 2

def delay : Nat := 2

/-- An element of `Sum`: `Att_inv_pulse[ii] + Delay_pulse[ii]`. -/
def sumAt (samples : List ℚ) (Ped : ℚ) (ii : Nat) : Reading ℚ := do
  let x ← get samples ii
  if ii ≥ delay then do
    let delayed ← get samples (ii - delay : Nat)
    pure (Binary64.add (Binary64.mul (-f) (Binary64.sub (Binary64.mul x LSB) Ped))
      (Binary64.sub (Binary64.mul delayed LSB) Ped))
  else pure (Binary64.add (Binary64.mul (-f) (Binary64.sub (Binary64.mul x LSB) Ped)) 0)

/-- `Sum`. -/
def sums (samples : List ℚ) (Ped : ℚ) : Reading (List ℚ) :=
  (List.range samples.length).foldlM (fun l ii => do
    let s ← sumAt samples Ped ii
    pure (l ++ [s])) []

/-- The search for the change of sign; `none` is one that has set nothing. -/
def search (Sum : List ℚ) : List Int → Reading (Option Edge)
  | [] => pure none
  | ii :: rest => do
    let Amp1 ← get Sum ii
    if Amp1 < 0 then do
      let Amp2 ← get Sum (ii + 1)
      pure (some ⟨ii * 4, (ii + 1) * 4, Amp1, Amp2⟩)
    else search Sum rest

/-- `for (int ii = (max_index + delay); ii > 0; ii--)`. -/
def zeroCrossing (samples : List ℚ) (Ped : ℚ) (maxIndex : Int) : Reading (Option Edge) := do
  let Sum ← sums samples Ped
  search Sum (interval 1 (maxIndex + delay)).reverse

/-- "linear interpolation with Threshold = 0"; `none` is a division by 0. -/
def Edge.interpolate (e : Edge) : Option ℚ :=
  if Binary64.sub e.Amp2 e.Amp1 = 0 then none
  else
    let slope := Binary64.div (Binary64.sub e.Tsup e.Tinf) (Binary64.sub e.Amp2 e.Amp1)
    some (Binary64.sub (Binary64.add (Binary64.mul slope (Binary64.sub 0 e.Amp1)) e.Tinf) (delay * 4))

/-- What a call leaves: the hit, the pedestal it has used (`none` without a signal), what the search for the change of
    sign has set, and the static variables. -/
structure Converted where
  hit : PaddlesPMTHit
  Ped : Option ℚ
  zero : Option Edge
  statics : Statics
  deriving DecidableEq, Repr

/-- "Constant fraction timing": `T` and what the search has set. -/
def fractionTime (samples : List ℚ) (Ped : ℚ) (maxIndex : Int) (lead : Leading) : Reading (Option ℚ × Option Edge) :=
  if lead.TIndex > 0 then do
    let zero ← (zeroCrossing samples Ped maxIndex).settled
    match zero with
    | none => pure (none, none)
    -- the search found nothing: the variables have the values of the leading edge
    | some none => pure (lead.edge.bind Edge.interpolate, none)
    | some (some e) => pure (e.interpolate, some e)
  else pure (some 0, none)

/-- A waveform with a signal. -/
def convertSignal (s : Statics) (id : Int) (lead : Leading) (samples : List ℚ) : Reading Converted := do
  let (Ped, s) ← pedestal s id lead.TIndex samples
  let (sum, _, m) ← chargeAndMaximum samples Ped
  let Q ← recovered samples Ped 0 sum m
  let (T, zero) ← fractionTime samples Ped m.index lead
  pure { hit := { Q := 2 * Q * (1 / 1000 * 4) / 50, T }, Ped := some Ped, zero, statics := s }

/-- `convertMode1Hit` once the static variables are there. -/
def convert (s : Statics) (id : Int) (Thr : ℚ) (samples : List ℚ) : Reading Converted := do
  let lead ← leadingEdge samples Thr
  match lead with
  | none => pure { hit := { Q := 0, T := some 0 }, Ped := none, zero := none, statics := s }
  | some lead => convertSignal s id lead samples

/-! ## The static variables -/

/-- A call. `table` is what `m_pedestals->getRawCalibData()` returns. -/
structure Call where
  id : Int
  Thr : ℚ
  table : List (List ℚ)
  samples : List ℚ
  deriving DecidableEq, Repr

/-- `getRawCalibData().at(row).at(3) * LSB`; `none` is the exception. -/
def databaseValue (table : List (List ℚ)) (row : Nat) : Option ℚ := do
  let columns ← table[row]?
  let value ← columns[3]?
  pure (Binary64.mul value LSB)

/-- The static variables, which have no value before the first call. -/
structure State where
  prev0 : Option ℚ := none
  prev1 : Option ℚ := none
  deriving DecidableEq, Repr

/-- The declarations of the static variables: each is initialised once, and an exception in the first one comes before
    the second. -/
def State.load (s : State) (table : List (List ℚ)) : State :=
  let prev0 := s.prev0.or (databaseValue table 144)
  { prev0, prev1 := s.prev1.or (if prev0.isSome then databaseValue table 145 else none) }

/-- `convertMode1Hit`; `none` is an exception. -/
def convertMode1Hit (s : State) (call : Call) : Option Converted × State :=
  let s := s.load call.table
  match s.prev0, s.prev1 with
  | some prev0, some prev1 =>
    match (convert ⟨prev0, prev1⟩ call.id call.Thr call.samples).value with
    | some c => (some c, ⟨some c.statics.prev0, some c.statics.prev1⟩)
    | none => (none, s)
  | _, _ => (none, s)

/-! ## The leading edge -/

/-- A sample, in mV. -/
def level (samples : List ℚ) (i : Nat) : ℚ := Binary64.mul (sample samples i) LSB

/-- The first sample over the threshold. -/
structure FirstAbove (samples : List ℚ) (Thr : ℚ) (i : Nat) : Prop where
  lt : i < samples.length
  gt : Thr < level samples i
  before : ∀ j < i, level samples j ≤ Thr

/-- No sample is over the threshold. -/
def NoneAbove (samples : List ℚ) (Thr : ℚ) : Prop := ∀ i < samples.length, level samples i ≤ Thr

section LeadingEdge

variable {samples : List ℚ} {Thr : ℚ} {i : Nat}

theorem noneAbove_or_firstAbove (samples : List ℚ) (Thr : ℚ) :
    NoneAbove samples Thr ∨ ∃ i, FirstAbove samples Thr i := by
  rcases none_or_first samples.length (fun i => Thr < level samples i) with h | ⟨i, hi, hlt, hbefore⟩
  · exact Or.inl fun i hi => not_lt.mp (h i hi)
  · exact Or.inr ⟨i, hi, hlt, fun j hj => not_lt.mp (hbefore j hj)⟩

theorem FirstAbove.unique {j : Nat} (h : FirstAbove samples Thr i) (h' : FirstAbove samples Thr j) : i = j := by
  rcases lt_trichotomy i j with hlt | heq | hgt
  · exact absurd h.gt (not_lt.mpr (h'.before i hlt))
  · exact heq
  · exact absurd h'.gt (not_lt.mpr (h.before j hgt))

theorem FirstAbove.not_none (h : FirstAbove samples Thr i) : ¬ NoneAbove samples Thr :=
  fun hnone => absurd h.gt (not_lt.mpr (hnone i h.lt))

theorem foldl_pass (l : List Nat) (s : Option Leading) : l.foldl (fun s _ => s) s = s := by
  induction l with
  | nil => rfl
  | cons _ l ih => exact ih

theorem leadingEdge_of_none (h : NoneAbove samples Thr) :
    (leadingEdge samples Thr).value = some none ∧ (leadingEdge samples Thr).Within samples.length := by
  obtain ⟨hvalue, hwithin⟩ := loopUntil_range_none (fun (s : Option Leading) (_ : Nat) => s) (Leading.found samples)
    (p := fun x => decide (Binary64.mul x LSB > Thr)) 0 (fun i hi => decide_eq_false (not_lt.mpr (h i hi))) none
  rw [foldl_pass] at hvalue
  exact ⟨hvalue, hwithin⟩

/-- What the variables are set to at the first sample over the threshold. -/
def leadingAt (samples : List ℚ) (i : Nat) : Leading where
  TIndex := i
  edge := if i = 0 then none else
    some ⟨((i : ℚ) - 1) * 4, i * 4, level samples (i - 1), level samples i⟩

theorem leadingEdge_of_first (h : FirstAbove samples Thr i) :
    (leadingEdge samples Thr).value = some (some (leadingAt samples i)) ∧
      (leadingEdge samples Thr).Within samples.length := by
  obtain ⟨hvalue, hwithin⟩ := loopUntil_range_some (fun (s : Option Leading) (_ : Nat) => s) (Leading.found samples)
    (p := fun x => decide (Binary64.mul x LSB > Thr)) 0 h.lt (decide_eq_true h.gt)
    (fun j hj => decide_eq_false (not_lt.mpr (h.before j hj))) none
  have hlt := h.lt
  unfold leadingEdge
  rw [hvalue, hwithin, foldl_pass]
  unfold Leading.found leadingAt
  by_cases hzero : i = 0
  · simp [hzero]
  · have hprev : (get samples (i - 1 : Nat)).value = some (sample samples (i - 1)) := value_get_nat (by omega) 0
    rw [if_neg hzero, if_neg hzero, value_bind, hprev, within_bind, within_get]
    exact ⟨rfl, ⟨by omega, by omega⟩, fun _ _ => within_pure _ _⟩

end LeadingEdge

/-! ## The pedestal -/

/-- The mean of the first 30 samples. -/
def ownPedestal (samples : List ℚ) : ℚ := Binary64.div (Binary64.total ((List.range Nsamples).map (level samples))) 30

/-- The pedestal of a signal whose first sample over the threshold is `i`. -/
def pedestalFor (s : Statics) (id : Int) (i : Nat) (samples : List ℚ) : ℚ :=
  if i < Nsamples ∧ id = 0 then s.prev0 else if i < Nsamples ∧ id = 1 then s.prev1 else ownPedestal samples

/-- The static variables after it. -/
def staticsAfter (s : Statics) (id : Int) (i : Nat) (samples : List ℚ) : Statics :=
  if i < Nsamples ∧ (id = 0 ∨ id = 1) then s
  else { prev0 := if id = 0 then ownPedestal samples else s.prev0,
         prev1 := if id = 1 then ownPedestal samples else s.prev1 }

/-- The pedestal is kept, or there are samples for one. -/
def HasPedestal (id : Int) (i : Nat) (samples : List ℚ) : Prop :=
  (i < Nsamples ∧ (id = 0 ∨ id = 1)) ∨ Nsamples ≤ samples.length

section PedestalSection

variable {s : Statics} {id : Int} {i : Nat} {samples : List ℚ}

theorem value_pedestal_of_has (h : HasPedestal id i samples) :
    (pedestal s id i samples).value = some (pedestalFor s id i samples, staticsAfter s id i samples) := by
  unfold pedestal pedestalFor staticsAfter
  by_cases hzero : i < Nsamples ∧ id = 0
  · rw [if_pos hzero, if_pos hzero, if_pos ⟨hzero.1, Or.inl hzero.2⟩]
    rfl
  · rw [if_neg hzero, if_neg hzero]
    by_cases hone : i < Nsamples ∧ id = 1
    · rw [if_pos hone, if_pos hone, if_pos ⟨hone.1, Or.inr hone.2⟩]
      rfl
    · have hown : ¬ (i < Nsamples ∧ (id = 0 ∨ id = 1)) := by
        rintro ⟨hi, hid | hid⟩
        · exact hzero ⟨hi, hid⟩
        · exact hone ⟨hi, hid⟩
      have hlen : Nsamples ≤ samples.length := h.resolve_left hown
      rw [if_neg hone, if_neg hone, if_neg hown, value_bind, value_loop_zero _ 0 hlen]
      show some _ = some _
      unfold ownPedestal Binary64.total
      rw [List.foldl_map]
      rfl

/-- There are not enough samples: an exception. -/
theorem value_pedestal_of_not_has (h : ¬ HasPedestal id i samples) : (pedestal s id i samples).value = none := by
  unfold HasPedestal at h
  have hkept : ¬ (i < Nsamples ∧ (id = 0 ∨ id = 1)) := fun hkept => h (Or.inl hkept)
  have hzero : ¬ (i < Nsamples ∧ id = 0) := fun hzero => hkept ⟨hzero.1, Or.inl hzero.2⟩
  have hone : ¬ (i < Nsamples ∧ id = 1) := fun hone => hkept ⟨hone.1, Or.inr hone.2⟩
  have hloop : ¬ ∀ j ∈ interval 0 ((Nsamples : Int) - 1), InBounds samples.length j := by
    rw [forall_interval]
    intro hfits
    have hbound := hfits (by decide)
    exact h (Or.inr (by omega))
  unfold pedestal
  rw [if_neg hzero, if_neg hone, value_bind, value_loop_of_not samples _ hloop]
  rfl

theorem within_pedestal_iff : (pedestal s id i samples).Within samples.length ↔ HasPedestal id i samples := by
  unfold pedestal HasPedestal
  by_cases hzero : i < Nsamples ∧ id = 0
  · simp [hzero.1, hzero.2]
  · by_cases hone : i < Nsamples ∧ id = 1
    · simp [hone.1, hone.2]
    · have hown : ¬ (i < Nsamples ∧ (id = 0 ∨ id = 1)) := by
        rintro ⟨hi, hid | hid⟩
        · exact hzero ⟨hi, hid⟩
        · exact hone ⟨hi, hid⟩
      rw [if_neg hzero, if_neg hone, within_bind, within_loop, forall_interval]
      constructor
      · rintro ⟨hfits, _⟩
        have hbound := hfits (by decide)
        right
        omega
      · intro h
        have hlen := h.resolve_left hown
        exact ⟨fun _ => ⟨le_refl _, by omega⟩, fun _ _ => within_pure _ _⟩

end PedestalSection

/-! ## Charge and maximum -/

/-- The sum over the whole waveform. -/
def fullSum (samples : List ℚ) (Ped : ℚ) : ℚ := ∑ j ∈ Finset.range samples.length, (level samples j - Ped)

/-- The first place of the largest sample, which is positive. -/
structure PositivePeak (samples : List ℚ) (t : Nat) : Prop where
  lt : t < samples.length
  pos : 0 < level samples t
  le_max : ∀ i < samples.length, level samples i ≤ level samples t
  lt_before : ∀ i < t, level samples i < level samples t

/-- No sample is positive. -/
def NonePositive (samples : List ℚ) : Prop := ∀ i < samples.length, level samples i ≤ 0

section ChargeSection

variable {samples : List ℚ} {Ped : ℚ}

theorem PositivePeak.unique {t u : Nat} (h : PositivePeak samples t) (h' : PositivePeak samples u) : t = u := by
  rcases lt_trichotomy t u with hlt | heq | hgt
  · exact absurd (h'.lt_before t hlt) (not_lt.mpr (h.le_max u h'.lt))
  · exact heq
  · exact absurd (h.lt_before u hgt) (not_lt.mpr (h'.le_max t h.lt))

theorem PositivePeak.not_none {t : Nat} (h : PositivePeak samples t) : ¬ NonePositive samples :=
  fun hnone => absurd h.pos (not_lt.mpr (hnone t h.lt))

/-- **Charge and maximum.** -/
theorem chargeAndMaximum_cases (samples : List ℚ) (Ped : ℚ) :
    ∃ max m, (chargeAndMaximum samples Ped).value = some (fullSum samples Ped, max, m) ∧
      ((NonePositive samples ∧ m = ⟨-1, -1, -1⟩) ∨
        ∃ t, PositivePeak samples t ∧ m = windowAround samples.length t) := by
  have hvalue : (chargeAndMaximum samples Ped).value = some (fullSum samples Ped,
      FirstMax.scan (level samples) (fun ii : Nat => windowAround samples.length (ii : Int)) (0, ⟨-1, -1, -1⟩)
        (List.range samples.length)) := by
    unfold chargeAndMaximum
    rw [value_loop_zero _ 0 (le_refl _)]
    unfold fullSum
    rw [← foldl_add_range]
    -- the sum and the maximum do not see each other
    exact congrArg some (foldl_pair (fun (Q : ℚ) (ii : Nat) => Q + (level samples ii - Ped))
      (fun (s : ℚ × Maximum) (ii : Nat) =>
        if level samples ii > s.1 then (level samples ii, windowAround samples.length (ii : Int)) else s)
      (List.range samples.length) (0, 0, ⟨-1, -1, -1⟩))
  have hscan := FirstMax.scan_cases (r := (· < ·)) (fun a b hab => not_lt.mpr hab.le) (level samples)
    (fun ii : Nat => windowAround samples.length (ii : Int)) ((0 : ℚ), (⟨-1, -1, -1⟩ : Maximum))
    (l := List.range samples.length) List.pairwise_lt_range
  rcases hscan with ⟨hstay, hle⟩ | ⟨t, ht, hpos, hstop, hmax⟩
  · rw [hstay] at hvalue
    refine ⟨_, _, hvalue, Or.inl ⟨?_, rfl⟩⟩
    intro i hi
    exact hle i (List.mem_range.mpr hi)
  · rw [hstop] at hvalue
    have hlt := List.mem_range.mp ht
    refine ⟨_, _, hvalue, Or.inr ⟨t, ⟨hlt, hpos, ?_, ?_⟩, rfl⟩⟩
    · intro i hi
      exact (hmax i (List.mem_range.mpr hi)).1
    · intro i hi
      exact (hmax i (List.mem_range.mpr (by omega))).2 hi

theorem within_chargeAndMaximum (samples : List ℚ) (Ped : ℚ) :
    (chargeAndMaximum samples Ped).Within samples.length :=
  (within_loop samples _ _ _).mpr (forall_interval.mpr (fits_all samples))

/-- The correction is not made: `T` is still 0. -/
theorem recovered_zero (samples : List ℚ) (Ped Q : ℚ) (m : Maximum) : recovered samples Ped 0 Q m = pure Q := by
  unfold recovered
  exact if_neg (fun h => lt_irrefl _ h.1)

end ChargeSection

/-! ## Constant fraction timing -/

/-- The pulse inverted at half its height, plus the delayed pulse. -/
def fraction (samples : List ℚ) (Ped : ℚ) (j : Nat) : ℚ :=
  Binary64.add (Binary64.mul (-f) (Binary64.sub (level samples j) Ped))
    (if 2 ≤ j then Binary64.sub (level samples (j - 2)) Ped else 0)

section Fraction

variable {samples : List ℚ} {Ped : ℚ}

theorem sumAt_spec {ii : Nat} (hii : ii < samples.length) :
    (sumAt samples Ped ii).value = some (fraction samples Ped ii) ∧
      (sumAt samples Ped ii).Within samples.length := by
  have hin : InBounds samples.length (ii : Int) := ⟨by omega, by omega⟩
  have hget : (get samples (ii : Int)).value = some (sample samples ii) := value_get_nat hii 0
  unfold sumAt fraction
  rw [value_bind, hget, within_bind, within_get, hget]
  by_cases hdelay : ii ≥ delay
  · have hin' : InBounds samples.length ((ii - delay : Nat) : Int) := ⟨by omega, by omega⟩
    have hget' : (get samples ((ii - delay : Nat) : Int)).value = some (sample samples (ii - delay)) :=
      value_get_nat (by omega) 0
    have htwo : 2 ≤ ii := hdelay
    simp only [Option.bind_some, if_pos hdelay, if_pos htwo, value_bind, hget', value_pure, within_bind, within_get]
    exact ⟨rfl, hin, fun _ _ => ⟨hin', fun _ _ => within_pure _ _⟩⟩
  · have htwo : ¬ 2 ≤ ii := hdelay
    simp only [Option.bind_some, if_neg hdelay, if_neg htwo, value_pure]
    exact ⟨rfl, hin, fun _ _ => within_pure _ _⟩

theorem foldl_snoc {α β : Type} (g : α → β) (l : List α) (acc : List β) :
    l.foldl (fun acc a => acc ++ [g a]) acc = acc ++ l.map g := by
  induction l generalizing acc with
  | nil => simp
  | cons a l ih => simp [ih]

theorem sums_spec (samples : List ℚ) (Ped : ℚ) :
    (sums samples Ped).value = some ((List.range samples.length).map (fraction samples Ped)) ∧
      (sums samples Ped).Within samples.length := by
  unfold sums
  constructor
  · rw [value_foldlM (F := fun l ii => l ++ [fraction samples Ped ii]), foldl_snoc, List.nil_append]
    intro ii hii l
    rw [value_bind, (sumAt_spec (List.mem_range.mp hii)).1]
    rfl
  · apply within_foldlM_of_forall
    intro ii hii l
    rw [within_bind]
    exact ⟨(sumAt_spec (List.mem_range.mp hii)).2, fun _ _ => within_pure _ _⟩

end Fraction

/-- The search has set the four variables, from elements of the array and to different amplitudes. -/
def Crosses (Sum : List ℚ) (k : Nat) : Prop :=
  (search Sum (interval 1 (k : Int)).reverse).Within Sum.length ∧
    ∃ e, (search Sum (interval 1 (k : Int)).reverse).value = some (some e) ∧ Binary64.sub e.Amp2 e.Amp1 ≠ 0

section Search

variable {Sum : List ℚ} {k : Nat}

theorem interval_succ (k : Nat) :
    (interval 1 ((k + 1 : Nat) : Int)).reverse = ((k + 1 : Nat) : Int) :: (interval 1 (k : Int)).reverse := by
  unfold interval Int.range
  have hlast : ((((k + 1 : Nat) : Int) + 1 - 1).toNat) = k + 1 := by omega
  have hprev : (((k : Int) + 1 - 1).toNat) = k := by omega
  rw [hlast, hprev, List.range_succ, List.map_append, List.reverse_append]
  have hcast : (1 : Int) + (k : Int) = ((k + 1 : Nat) : Int) := by omega
  simp [hcast]

theorem search_succ (Sum : List ℚ) (k : Nat) :
    search Sum (interval 1 ((k + 1 : Nat) : Int)).reverse = get Sum ((k + 1 : Nat) : Int) >>= fun Amp1 =>
      if Amp1 < 0 then get Sum (((k + 1 : Nat) : Int) + 1) >>= fun Amp2 =>
        pure (some ⟨((k + 1 : Nat) : Int) * 4, (((k + 1 : Nat) : Int) + 1) * 4, Amp1, Amp2⟩)
      else search Sum (interval 1 (k : Int)).reverse := by
  rw [interval_succ]
  rfl

theorem not_crosses_zero (Sum : List ℚ) : ¬ Crosses Sum 0 := by
  rintro ⟨_, e, he, _⟩
  exact absurd he (by simp [interval, Int.range, search])

/-- The search starts outside the array. -/
theorem not_crosses_of_le (hlen : Sum.length ≤ k + 1) : ¬ Crosses Sum (k + 1) := by
  rintro ⟨hwithin, _⟩
  rw [search_succ, within_bind, within_get] at hwithin
  have hlt := hwithin.1.2
  omega

/-- It passes an element. -/
theorem crosses_of_nonneg (hlt : k + 1 < Sum.length) (hnonneg : 0 ≤ sample Sum (k + 1)) :
    Crosses Sum (k + 1) ↔ Crosses Sum k := by
  have hin : InBounds Sum.length ((k + 1 : Nat) : Int) := ⟨by omega, by omega⟩
  have hget : (get Sum ((k + 1 : Nat) : Int)).value = some (sample Sum (k + 1)) := value_get_nat hlt 0
  unfold Crosses
  rw [search_succ, within_bind, within_get, value_bind, hget]
  simp only [hin, true_and, Option.some.injEq, forall_eq', Option.bind_some, if_neg (not_lt.mpr hnonneg)]

/-- It stops at an element. -/
theorem crosses_of_neg (hdouble : ∀ j, Binary64.IsDouble (sample Sum j)) (hlt : k + 1 < Sum.length) (hneg : sample Sum (k + 1) < 0) :
    Crosses Sum (k + 1) ↔ k + 2 < Sum.length ∧ sample Sum (k + 2) ≠ sample Sum (k + 1) := by
  have hin : InBounds Sum.length ((k + 1 : Nat) : Int) := ⟨by omega, by omega⟩
  have hget : (get Sum ((k + 1 : Nat) : Int)).value = some (sample Sum (k + 1)) := value_get_nat hlt 0
  have hnext : ((k + 1 : Nat) : Int) + 1 = ((k + 2 : Nat) : Int) := by omega
  unfold Crosses
  rw [search_succ, within_bind, within_get, value_bind, hget]
  simp only [hin, true_and, Option.some.injEq, forall_eq', if_pos hneg, within_bind, within_get, Option.bind_some,
    value_bind, hnext]
  constructor
  · rintro ⟨⟨hin', _⟩, e, he, hne⟩
    have hlt' : k + 2 < Sum.length := by
      have := hin'.2
      omega
    have hget' : (get Sum ((k + 2 : Nat) : Int)).value = some (sample Sum (k + 2)) := value_get_nat hlt' 0
    rw [hget', Option.bind_some, value_pure, Option.some.injEq, Option.some.injEq] at he
    refine ⟨hlt', ?_⟩
    rw [← he] at hne
    exact ((hdouble _).sub_ne_zero_iff (hdouble _)).mp hne
  · rintro ⟨hlt', hne⟩
    have hget' : (get Sum ((k + 2 : Nat) : Int)).value = some (sample Sum (k + 2)) := value_get_nat hlt' 0
    refine ⟨⟨⟨by omega, by omega⟩, fun _ _ => within_pure _ _⟩, _, by rw [hget']; rfl, ?_⟩
    exact ((hdouble _).sub_ne_zero_iff (hdouble _)).mpr hne

/-- Below an element that is not negative the search needs no more than a negative one. -/
theorem crosses_below (hdouble : ∀ j, Binary64.IsDouble (sample Sum j)) (hlt : k + 1 < Sum.length) (hnonneg : 0 ≤ sample Sum (k + 1)) :
    Crosses Sum k ↔ ∃ j, 1 ≤ j ∧ j ≤ k ∧ sample Sum j < 0 := by
  induction k with
  | zero =>
      constructor
      · intro h
        exact absurd h (not_crosses_zero Sum)
      · rintro ⟨j, hj, hj', _⟩
        omega
  | succ k ih =>
      by_cases hneg : sample Sum (k + 1) < 0
      · rw [crosses_of_neg hdouble (by omega) hneg]
        constructor
        · intro _
          exact ⟨k + 1, by omega, le_refl _, hneg⟩
        · intro _
          exact ⟨hlt, ne_of_gt (lt_of_lt_of_le hneg hnonneg)⟩
      · rw [crosses_of_nonneg (by omega) (not_lt.mp hneg), ih (by omega) (not_lt.mp hneg)]
        constructor
        · rintro ⟨j, hj, hj', hlow⟩
          exact ⟨j, hj, by omega, hlow⟩
        · rintro ⟨j, hj, hj', hlow⟩
          have hne : j ≠ k + 1 := by
            rintro rfl
            exact hneg hlow
          exact ⟨j, hj, by omega, hlow⟩

/-- **Exactly when the search ends well.** -/
theorem crosses_iff (hdouble : ∀ j, Binary64.IsDouble (sample Sum j)) (hk : 1 ≤ k) :
    Crosses Sum k ↔ k < Sum.length ∧ (∃ j, 1 ≤ j ∧ j ≤ k ∧ sample Sum j < 0) ∧
      (sample Sum k < 0 → k + 1 < Sum.length ∧ sample Sum (k + 1) ≠ sample Sum k) := by
  obtain ⟨k, rfl⟩ : ∃ m, k = m + 1 := ⟨k - 1, by omega⟩
  by_cases hlt : k + 1 < Sum.length
  · by_cases hneg : sample Sum (k + 1) < 0
    · rw [crosses_of_neg hdouble hlt hneg]
      constructor
      · intro h
        exact ⟨hlt, ⟨k + 1, hk, le_refl _, hneg⟩, fun _ => h⟩
      · rintro ⟨_, _, h⟩
        exact h hneg
    · have hbelow := crosses_below hdouble hlt (not_lt.mp hneg)
      rw [crosses_of_nonneg hlt (not_lt.mp hneg), hbelow]
      constructor
      · rintro ⟨j, hj, hj', hlow⟩
        exact ⟨hlt, ⟨j, hj, by omega, hlow⟩, fun h => absurd h hneg⟩
      · rintro ⟨_, ⟨j, hj, hj', hlow⟩, _⟩
        have hne : j ≠ k + 1 := by
          rintro rfl
          exact hneg hlow
        exact ⟨j, hj, by omega, hlow⟩
  · constructor
    · intro h
      exact absurd h (not_crosses_of_le (by omega))
    · rintro ⟨h, _⟩
      exact absurd h hlt

end Search

/-! ## The whole conversion -/

/-- `Sum`, element by element. -/
def sumList (samples : List ℚ) (Ped : ℚ) : List ℚ := (List.range samples.length).map (fraction samples Ped)

/-- Where the search for the change of sign starts. -/
def SearchStart (samples : List ℚ) (k : Nat) : Prop :=
  (∃ t, PositivePeak samples t ∧ k = t + 2) ∨ (NonePositive samples ∧ k = 1)

section Convert

variable {s : Statics} {id : Int} {Thr : ℚ} {samples : List ℚ} {i : Nat}

@[simp] theorem length_sumList (samples : List ℚ) (Ped : ℚ) : (sumList samples Ped).length = samples.length := by
  simp [sumList]

theorem sample_sumList {Ped : ℚ} {j : Nat} (hj : j < samples.length) :
    sample (sumList samples Ped) j = fraction samples Ped j := by
  simp [sample, sumList, hj]

theorem isDouble_sumList (samples : List ℚ) (Ped : ℚ) (j : Nat) :
    Binary64.IsDouble (sample (sumList samples Ped) j) := by
  by_cases hj : j < samples.length
  · rw [sample_sumList hj]
    exact Binary64.isDouble_round _
  · have hnone : sample (sumList samples Ped) j = 0 := by
      simp [sample, sumList, not_lt.mp hj]
    rw [hnone]
    decide +kernel

theorem SearchStart.unique {k k' : Nat} (h : SearchStart samples k) (h' : SearchStart samples k') : k = k' := by
  rcases h with ⟨t, ht, rfl⟩ | ⟨hnone, rfl⟩
  · rcases h' with ⟨u, hu, rfl⟩ | ⟨hnone, _⟩
    · rw [ht.unique hu]
    · exact absurd hnone ht.not_none
  · rcases h' with ⟨u, hu, _⟩ | ⟨_, rfl⟩
    · exact absurd hnone hu.not_none
    · rfl

theorem SearchStart.pos {k : Nat} (h : SearchStart samples k) : 1 ≤ k := by
  rcases h with ⟨t, _, rfl⟩ | ⟨_, rfl⟩ <;> omega

theorem zeroCrossing_eq (samples : List ℚ) (Ped : ℚ) {maxIndex : Int} {k : Nat} (hk : maxIndex + delay = k) :
    (zeroCrossing samples Ped maxIndex).value = (search (sumList samples Ped) (interval 1 (k : Int)).reverse).value ∧
    ((zeroCrossing samples Ped maxIndex).Within samples.length ↔
      (search (sumList samples Ped) (interval 1 (k : Int)).reverse).Within samples.length) := by
  obtain ⟨hvalue, hwithin⟩ := sums_spec samples Ped
  unfold zeroCrossing
  rw [value_bind, within_bind, hvalue, hk]
  simp only [Option.bind_some, Option.some.injEq, forall_eq', hwithin, true_and]
  exact ⟨rfl, Iff.rfl⟩

/-- The time always has a place in the hit, determined or not. -/
theorem fractionTime_spec (samples : List ℚ) (Ped : ℚ) {maxIndex : Int} {k : Nat} (hk : maxIndex + delay = k)
    (lead : Leading) (hpos : lead.TIndex > 0) :
    ((fractionTime samples Ped maxIndex lead).Within samples.length ↔
      (search (sumList samples Ped) (interval 1 (k : Int)).reverse).Within samples.length) ∧
    ∃ T zero, (fractionTime samples Ped maxIndex lead).value = some (T, zero) ∧
      (∀ e, zero = some e ↔
        (search (sumList samples Ped) (interval 1 (k : Int)).reverse).value = some (some e)) ∧
      ∀ e, zero = some e → T = e.interpolate := by
  obtain ⟨hvalue, hwithin⟩ := zeroCrossing_eq samples Ped hk
  unfold fractionTime
  rw [if_pos hpos, within_bind, value_bind, within_settled, hwithin, value_settled, Option.bind_some, hvalue]
  constructor
  · constructor
    · exact fun h => h.1
    · intro h
      refine ⟨h, ?_⟩
      intro zero _
      split <;> exact within_pure _ _
  · cases hsearch : (search (sumList samples Ped) (interval 1 (k : Int)).reverse).value with
    | none => exact ⟨_, _, rfl, by simp, by simp⟩
    | some found =>
        cases found with
        | none => exact ⟨_, _, rfl, by simp, by simp⟩
        | some e => exact ⟨_, _, rfl, by simp, by simp⟩

/-- The time is taken at 0 when the pulse begins with the waveform. -/
theorem fractionTime_zero (Ped : ℚ) (maxIndex : Int) (lead : Leading) (hzero : ¬ lead.TIndex > 0) :
    fractionTime samples Ped maxIndex lead = pure (some 0, none) := by
  unfold fractionTime
  exact if_neg hzero

/-- **A waveform without a signal.** -/
theorem convert_of_none (s : Statics) (id : Int) (h : NoneAbove samples Thr) :
    (convert s id Thr samples).value
        = some { hit := { Q := 0, T := some 0 }, Ped := none, zero := none, statics := s } ∧
      (convert s id Thr samples).Within samples.length := by
  obtain ⟨hvalue, hwithin⟩ := leadingEdge_of_none h
  unfold convert
  rw [value_bind, within_bind, hvalue]
  refine ⟨rfl, hwithin, ?_⟩
  intro lead hlead
  obtain rfl := Option.some.inj hlead
  exact within_pure _ _

theorem convert_of_first (s : Statics) (id : Int) (h : FirstAbove samples Thr i) :
    (convert s id Thr samples).value = (convertSignal s id (leadingAt samples i) samples).value ∧
      ((convert s id Thr samples).Within samples.length ↔
        (convertSignal s id (leadingAt samples i) samples).Within samples.length) := by
  obtain ⟨hvalue, hwithin⟩ := leadingEdge_of_first h
  unfold convert
  rw [value_bind, within_bind, hvalue]
  simp [hwithin]

/-- The variables of the charge, with the place where the search starts. -/
theorem chargeAndMaximum_start (samples : List ℚ) (Ped : ℚ) :
    ∃ max m k, (chargeAndMaximum samples Ped).value = some (fullSum samples Ped, max, m) ∧
      SearchStart samples k ∧ m.index + delay = (k : Int) := by
  obtain ⟨max, m, hvalue, hcases⟩ := chargeAndMaximum_cases samples Ped
  rcases hcases with ⟨hnone, hm⟩ | ⟨t, ht, hm⟩
  · refine ⟨max, m, 1, hvalue, Or.inr ⟨hnone, rfl⟩, ?_⟩
    rw [hm]
    rfl
  · refine ⟨max, m, t + 2, hvalue, Or.inl ⟨t, ht, rfl⟩, ?_⟩
    rw [hm]
    rfl

/-- **A waveform with a signal.** -/
theorem convertSignal_spec (hped : HasPedestal id i samples) :
    ∃ k c, SearchStart samples k ∧ (convertSignal s id (leadingAt samples i) samples).value = some c ∧
      c.Ped = some (pedestalFor s id i samples) ∧ c.statics = staticsAfter s id i samples ∧
      c.hit.Q = 2 * fullSum samples (pedestalFor s id i samples) * (1 / 1000 * 4) / 50 ∧
      ((convertSignal s id (leadingAt samples i) samples).Within samples.length ↔ (0 < i →
        (search (sumList samples (pedestalFor s id i samples)) (interval 1 (k : Int)).reverse).Within
          samples.length)) ∧
      (0 < i → ∀ e, c.zero = some e ↔
        (search (sumList samples (pedestalFor s id i samples)) (interval 1 (k : Int)).reverse).value
          = some (some e)) ∧
      ∀ e, c.zero = some e → c.hit.T = e.interpolate := by
  have hpedestal := value_pedestal_of_has (s := s) hped
  obtain ⟨max, m, k, hcharge, hstart, hk⟩ :=
    chargeAndMaximum_start samples (pedestalFor s id i samples)
  have hwithin := within_chargeAndMaximum samples (pedestalFor s id i samples)
  have hin : (pedestal s id i samples).Within samples.length := within_pedestal_iff.mpr hped
  have hindex : (leadingAt samples i).TIndex = i := rfl
  by_cases hpos : 0 < i
  · obtain ⟨htime, T, zero, hvalue, hzero, hT⟩ :=
      fractionTime_spec samples (pedestalFor s id i samples) hk (leadingAt samples i) hpos
    refine ⟨k, ⟨⟨_, T⟩, _, zero, staticsAfter s id i samples⟩, hstart, ?_, rfl, rfl, rfl, ?_, fun _ => hzero, hT⟩
    · unfold convertSignal
      simp only [value_bind, hindex, hpedestal, Option.bind_some, hcharge, recovered_zero, hvalue, value_pure]
    · unfold convertSignal
      simp [within_bind, hindex, hpedestal, hcharge, recovered_zero, hin, hwithin, htime, hpos]
  · have htime : fractionTime samples (pedestalFor s id i samples) m.index (leadingAt samples i) = pure (some 0, none) :=
      fractionTime_zero _ _ _ hpos
    refine ⟨k, ⟨⟨_, some 0⟩, _, none, staticsAfter s id i samples⟩, hstart, ?_, rfl, rfl, rfl, ?_, fun h => absurd h hpos, by simp⟩
    · unfold convertSignal
      simp only [value_bind, hindex, hpedestal, Option.bind_some, hcharge, recovered_zero, htime, value_pure]
    · unfold convertSignal
      simp [within_bind, hindex, hpedestal, hcharge, recovered_zero, hin, hwithin, htime, hpos]

end Convert

end Paddlesfa250Converter

end BdxReco
