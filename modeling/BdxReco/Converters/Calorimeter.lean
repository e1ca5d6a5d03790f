import BdxReco.Converters.Factories
import BdxReco.Converters.Waveform

/-!
# `Converters.Calorimeter` — the waveforms of the calorimeter

`Calorimeterfa250Converter::convertMode1Hit` subtracts a pedestal, finds the pulses and then goes one of five ways:
no pulse of interest, a long signal, one single photoelectron with its integration window inside the waveform or not,
and several of them. Each way has its own window for the charge and its own copy of the interpolation for the time.

None of the windows is checked against the waveform once more before it is read. A number that is read from outside
it, or from a variable that has not been set, is `none`, and so is one that is not a number. Pedestals, lengths and
times are rounded as the code rounds them, and the sums for charge and average are exact. A sum of two `int`s is taken
modulo `2 ^ 32`, and a `double` that does not fit into an `int` becomes the smallest one.
-/

namespace BdxReco

open Reading Fa250Converter
open Binary64 (add sub mul div)

/-! ## The hit -/

/-- `CalorimeterSiPMHit::hit_type`. -/
inductive CaloHitType where
  | noise
  | onePhe
  | goodOnePhe
  | manyPhe
  | realSignal
  deriving DecidableEq, Repr

/-- The members of `CalorimeterSiPMHit` that `convertMode1Hit` sets. -/
structure CalorimeterSiPMHit where
  Qraw : Option ℚ := some 0
  T : Option ℚ := some 0
  A : Option ℚ := some 0
  average : Option ℚ
  pedMean : Option ℚ
  pedRMS : Option ℚ
  RMSflag : Bool
  type : CaloHitType := .noise
  nSingles : Nat := 0
  nSignals : Nat := 0
  deriving DecidableEq, Repr

/-! ## `convertMode1Hit` -/

namespace Calorimeterfa250Converter

/-- The local copies of the parameters: times in samples, and the constants of the channel. -/
structure Setting where
  THR : ℚ
  MIN_TOT : ℚ
  SIGNAL_TOT : ℚ
  dT : ℚ
  NPEDs : Int
  NSBs : Int
  NSAs : Int
  NSAMPLESs : Int

/-- `calib` is what `m_thrDB` has for the channel. -/
def setting (c : Calorimeterfa250Converter) (calib : ℚ × ℚ × ℚ) (input : Fa250Mode1CalibPedSubHit) : Setting where
  THR := calib.1
  MIN_TOT := calib.2.1
  SIGNAL_TOT := calib.2.2
  dT := input.dT
  NPEDs := inSamples c.NPED input.dT
  NSBs := inSamples c.NSB input.dT
  NSAs := inSamples c.NSA input.dT
  NSAMPLESs := inSamples c.NSAMPLES input.dT

namespace Setting

/-- The time over threshold makes it a signal. -/
def isSignal (g : Setting) (p : Int × Int) : Bool :=
  decide (0 ≤ p.2 - p.1 ∧ ((p.2 - p.1 : Int) : ℚ) > Binary64.div g.SIGNAL_TOT g.dT)

/-- Not a signal, but long enough for a photoelectron, or cut by an end of the waveform. -/
def isSingle (g : Setting) (size : Nat) (p : Int × Int) : Bool :=
  decide (0 ≤ p.2 - p.1 ∧ ¬ ((p.2 - p.1 : Int) : ℚ) > Binary64.div g.SIGNAL_TOT g.dT ∧
    (((p.2 - p.1 : Int) : ℚ) > Binary64.div g.MIN_TOT g.dT ∨ p.2 = size ∨ p.1 = 0))

/-- `Tmax` is so close to an end of the waveform that the integration window does not fit. -/
def AtEdge (g : Setting) (size : Nat) (Tmax : Int) : Prop :=
  Tmax ≤ g.NSBs ∨ Tmax ≥ ((size : Int) - 1 - g.NSAs).bmod (2 ^ 32)

instance (g : Setting) (size : Nat) (Tmax : Int) : Decidable (g.AtEdge size Tmax) :=
  inferInstanceAs (Decidable (_ ∨ _))

/-- The charge of `noise` and `one_phe`: from the start of the waveform on. The comparison with the size is one of
    unsigned numbers. -/
def headSum (g : Setting) (w : List ℚ) : Reading ℚ :=
  let last := (g.NSBs + g.NSAs).bmod (2 ^ 32)
  if last < 0 ∨ last ≥ w.length then sumAll w else sumSamples w 0 last

def noise (g : Setting) (w : List ℚ) (out : CalorimeterSiPMHit) : Reading CalorimeterSiPMHit := do
  let Qraw ← (g.headSum w).settled
  pure { out with type := .noise, Qraw, A := some 0, T := some 0 }

/-- The last step, for the branches that do not return early. -/
def rescale (g : Setting) (out : CalorimeterSiPMHit) : CalorimeterSiPMHit :=
  { out with Qraw := out.Qraw.map (· * (g.dT / 4)) }

/-- `(m_THR - min) * (xmax - xmin) / (max - min) + xmin`, in ns. -/
def interpolate (g : Setting) (xmin xmax : Int) (min max : ℚ) : ℚ :=
  mul (add (div (mul (sub g.THR min) (sub xmax xmin)) (sub max min)) xmin) g.dT

/-- The time of `good_one_phe`. -/
def timeOf (g : Setting) (w : List ℚ) (first : Int) : Reading ℚ := do
  let max ← get w first
  let min ← get w (first - 1)
  pure (g.interpolate (first - 1) first min max)

/-- The time of `real_signal` and `many_phe`. If the sample before the crossing is the first one, `T` is set to 0, but
    then it is computed all the same, and `min` has not been set. -/
def timeOrZero (g : Setting) (w : List ℚ) (first : Int) : Reading ℚ :=
  if first - 1 = 0 then undetermined else g.timeOf w first

/-- `xmin` and `xmax` of `real_signal`. -/
def signalWindow (g : Setting) (size : Nat) (first : Int) : Int × Int :=
  let xmin := first - g.NSBs
  let xmax := first - g.NSBs + g.NSAMPLESs
  (asInt (if xmin < 0 then 0 else xmin), asInt (if xmax ≥ size then size - 1 else xmax))

def realSignal (g : Setting) (w : List ℚ) (first : Int) (out : CalorimeterSiPMHit) : Reading CalorimeterSiPMHit := do
  let window := g.signalWindow w.length first
  let Qraw ← (sumSamples w window.1 window.2).settled
  let max ← (maximumOfAll w).settled
  let T ← (g.timeOrZero w first).settled
  pure (g.rescale { out with type := .realSignal, Qraw, A := max.map Prod.fst, T })

/-- One single: `first` is the first crossing of the waveform. -/
def oneSingle (g : Setting) (w : List ℚ) (first : Int × Int) (out : CalorimeterSiPMHit) : Reading CalorimeterSiPMHit := do
  let (A, Tmax) ← getMaximum w first.1 first.2
  if g.AtEdge w.length Tmax then
    let Qraw ← (g.headSum w).settled
    pure { out with type := .onePhe, Qraw, A := some A, T := some 0 }
  else
    -- "this instruction is to do sipm studies": the charge of the whole waveform
    let Qraw ← (sumAll w).settled
    let T ← (g.timeOf w first.1).settled
    -- the average is divided by the number of samples a second time
    pure (g.rescale { out with
      type := .goodOnePhe, Qraw, A := some A, T, average := out.average.map (· / w.length) })

/-- `xmin` and `xmax` of a pulse of `many_phe`; `prev_xmin` stays 0. -/
def pheWindow (g : Setting) (size : Nat) (Tmax : Int) : Int × Int :=
  let xmin := Tmax - g.NSBs
  let xmax := Tmax + g.NSAs
  -- a window that ends at `size` is not cut
  (asInt (if xmin < 0 then 0 else xmin), asInt (if xmax > size then size - 1 else xmax))

/-- The body of the loop over the singles: `A` and `Qraw`. -/
def addPhe (g : Setting) (w : List ℚ) (s : Option ℚ × Option ℚ) (p : Int × Int) : Reading (Option ℚ × Option ℚ) := do
  let max ← (getMaximum w p.1 p.2).settled
  match max with
  -- `Tmax` is not determined, and neither is the window around it
  | none => pure (none, none)
  | some (max, Tmax) =>
    let window := g.pheWindow w.length Tmax
    let sum ← (sumSamples w window.1 window.2).settled
    pure (s.1.map (fun A => if A < max then max else A), s.2.bind (fun Qraw => sum.map (Qraw + ·)))

def manyPhe (g : Setting) (w : List ℚ) (singles : List (Int × Int)) (first : Int) (out : CalorimeterSiPMHit) :
    Reading CalorimeterSiPMHit := do
  let (A, Qraw) ← singles.foldlM (g.addPhe w) (some 0, some 0)
  let T ← (g.timeOrZero w first).settled
  pure (g.rescale { out with type := .manyPhe, Qraw, A, T })

/-- `m_nSignals` and `m_nSingles`. -/
def counted (g : Setting) (w : List ℚ) (crossingTimes : List (Int × Int)) (out : CalorimeterSiPMHit) :
    CalorimeterSiPMHit :=
  { out with
    nSignals := (crossingTimes.filter g.isSignal).length
    nSingles := (crossingTimes.filter (g.isSingle w.length)).length }

/-- Everything after the pedestal, for the pulses of the waveform. -/
def analyse (g : Setting) (w : List ℚ) (crossingTimes : List (Int × Int)) (out : CalorimeterSiPMHit) :
    Reading CalorimeterSiPMHit :=
  let out := g.counted w crossingTimes out
  match crossingTimes.filter g.isSignal, crossingTimes.filter (g.isSingle w.length) with
  | [], [] => g.noise w out
  | p :: _, _ => g.realSignal w p.1 out
  -- the branch uses the first crossing, whichever of them is the single
  | [], [_] =>
    match crossingTimes with
    | [] => undetermined
    | first :: _ => g.oneSingle w first out
  | [], p :: q :: rest => g.manyPhe w (p :: q :: rest) p.1 out

end Setting

/-- `convertMode1Hit`. Without samples for the pedestal the waveform consists of values that are not numbers: every
    comparison with the threshold is false, and there are no crossings. -/
def convertMode1Hit (c : Calorimeterfa250Converter) (calib : ℚ × ℚ × ℚ) (input : Fa250Mode1CalibPedSubHit) :
    Reading CalorimeterSiPMHit := do
  let g := c.setting calib input
  let size := input.samples.length
  let sum ← sumAll input.samples
  let average := some (sum / size)
  let ped ← pedestal input.samples 0 g.NPEDs
  let _ ← loop input.samples (fun _ _ _ => ()) () (scanReads size)
  match ped with
  -- 0 / 0: the hit is noise, and its charge is not a number
  | none => do
    let _ ← g.headSum input.samples
    pure { average, pedMean := none, pedRMS := none, RMSflag := false, Qraw := none }
  | some ped =>
    let w := subtract input.samples ped.mean
    g.analyse w (crossingTimes w g.THR)
      { average, pedMean := some ped.mean, pedRMS := ped.rms, RMSflag := rmsAtMost ped.rms input.RMS }

end Calorimeterfa250Converter

/-! ## Which way a waveform goes -/

/-- The first in time of the pulses with a property. -/
def FirstOf (P : Int × Int → Prop) (p : Int × Int) : Prop := P p ∧ ∀ q, P q → p.2 ≤ q.2

theorem FirstOf.unique {w : List ℚ} {P : Int × Int → Prop} {thr : ℚ} (hw : w ≠ [])
    (hP : ∀ p, P p → Crossing w thr p) {p q : Int × Int} (hp : FirstOf P p) (hq : FirstOf P q) : p = q :=
  (hP p hp.1).eq_of_end (hP q hq.1) (le_antisymm (hp.2 q hq.1) (hq.2 p hp.1)) hw

namespace Calorimeterfa250Converter.Setting

/-- The time over threshold is that of a signal. -/
def Long (g : Setting) (p : Int × Int) : Prop := ((p.2 - p.1 : Int) : ℚ) > Binary64.div g.SIGNAL_TOT g.dT

/-- It is not, but it is that of a photoelectron, or the pulse is cut by an end of the waveform. -/
def Accepted (g : Setting) (size : Nat) (p : Int × Int) : Prop :=
  ¬ g.Long p ∧ (((p.2 - p.1 : Int) : ℚ) > Binary64.div g.MIN_TOT g.dT ∨ p.2 = size ∨ p.1 = 0)

/-- A crossing long enough for a signal. -/
def Signal (g : Setting) (w : List ℚ) (p : Int × Int) : Prop := Crossing w g.THR p ∧ g.Long p

/-- A crossing that is accepted as a photoelectron. -/
def Single (g : Setting) (w : List ℚ) (p : Int × Int) : Prop := Crossing w g.THR p ∧ g.Accepted w.length p

/-- No crossing is a signal. -/
def NoSignal (g : Setting) (w : List ℚ) : Prop := ∀ p, ¬ g.Signal w p

/-- `p` is accepted, and no other crossing is. -/
def OnlySingle (g : Setting) (w : List ℚ) (p : Int × Int) : Prop := g.Single w p ∧ ∀ q, g.Single w q → q = p

/-- At least two crossings are accepted. -/
def Several (g : Setting) (w : List ℚ) : Prop := ∃ p q, g.Single w p ∧ g.Single w q ∧ p ≠ q

section Ways

variable {g : Setting} {w : List ℚ}

theorem mem_signals (hw : w ≠ []) (p : Int × Int) :
    p ∈ (crossingTimes w g.THR).filter g.isSignal ↔ g.Signal w p := by
  rw [List.mem_filter, mem_crossingTimes hw]
  unfold isSignal Signal
  rw [decide_eq_true_eq]
  constructor
  · rintro ⟨hp, _, hlong⟩
    exact ⟨hp, hlong⟩
  · rintro ⟨hp, hlong⟩
    have hlt := hp.lt
    exact ⟨hp, by omega, hlong⟩

theorem mem_singles (hw : w ≠ []) (p : Int × Int) :
    p ∈ (crossingTimes w g.THR).filter (g.isSingle w.length) ↔ g.Single w p := by
  rw [List.mem_filter, mem_crossingTimes hw]
  unfold isSingle Single
  rw [decide_eq_true_eq]
  constructor
  · rintro ⟨hp, _, hrest⟩
    exact ⟨hp, hrest⟩
  · rintro ⟨hp, hrest⟩
    have hlt := hp.lt
    exact ⟨hp, by omega, hrest⟩

theorem noSignal_of_nil (hw : w ≠ []) (h : (crossingTimes w g.THR).filter g.isSignal = []) : g.NoSignal w := by
  intro p hp
  have hmem := (mem_signals hw p).mpr hp
  rw [h] at hmem
  exact absurd hmem List.not_mem_nil

theorem Several.ne_nil (h : g.Several w) : w ≠ [] := by
  rintro rfl
  obtain ⟨p, q, hp, hq, hne⟩ := h
  exact hne (hp.1.eq_of_nil.trans hq.1.eq_of_nil.symm)

/-- The head of a list of pulses that is ordered by their ends. -/
theorem firstOf_of_ordered {P : Int × Int → Prop} {p : Int × Int} {l : List (Int × Int)}
    (hl : (p :: l).Pairwise (fun p q => p.2 < q.2)) (hmem : ∀ q, q ∈ p :: l ↔ P q) : FirstOf P p := by
  refine ⟨(hmem p).mp List.mem_cons_self, ?_⟩
  intro q hq
  rcases List.mem_cons.mp ((hmem q).mpr hq) with hqp | hql
  · rw [hqp]
  · exact ((List.pairwise_cons.mp hl).1 q hql).le

theorem singles_ordered (hw : w ≠ []) :
    ((crossingTimes w g.THR).filter (g.isSingle w.length)).Pairwise (fun p q => p.2 < q.2) :=
  (crossingTimes_ordered hw g.THR).filter _

theorem NoSignal.not_firstOf (h : g.NoSignal w) {p : Int × Int} (hp : FirstOf (g.Signal w) p) : False := h p hp.1

theorem OnlySingle.not_several {p : Int × Int} (h : g.OnlySingle w p) : ¬ g.Several w := by
  rintro ⟨q, r, hq, hr, hne⟩
  exact hne ((h.2 q hq).trans (h.2 r hr).symm)

/-- The list of all crossings starts with the first one. -/
theorem exists_first_crossing {thr : ℚ} (hw : w ≠ []) {p : Int × Int} (hmem : p ∈ crossingTimes w thr) :
    ∃ e rest, crossingTimes w thr = e :: rest ∧ FirstOf (Crossing w thr) e := by
  have hcrossings := mem_crossingTimes hw thr
  have hordered := crossingTimes_ordered hw thr
  cases hall : crossingTimes w thr with
  | nil =>
      rw [hall] at hmem
      exact absurd hmem List.not_mem_nil
  | cons e rest =>
      rw [hall] at hcrossings hordered
      exact ⟨e, rest, rfl, firstOf_of_ordered hordered hcrossings⟩

/-- Two single pulses in a list of all of them are two. -/
theorem several_of_ordered {p q : Int × Int} {l : List (Int × Int)}
    (hl : (p :: q :: l).Pairwise (fun p q => p.2 < q.2)) (hmem : ∀ r, r ∈ p :: q :: l ↔ g.Single w r) : g.Several w := by
  have hpq : p.2 < q.2 := (List.pairwise_cons.mp hl).1 q List.mem_cons_self
  refine ⟨p, q, (hmem p).mp List.mem_cons_self, (hmem q).mp (List.mem_cons_of_mem _ List.mem_cons_self), ?_⟩
  intro heq
  rw [heq] at hpq
  exact lt_irrefl _ hpq

/-- **The five ways**, two of which part later. -/
theorem analyse_cases (hw : w ≠ []) (out : CalorimeterSiPMHit) :
    (g.NoSignal w ∧ (∀ p, ¬ g.Single w p) ∧
      g.analyse w (crossingTimes w g.THR) out = g.noise w (g.counted w (crossingTimes w g.THR) out)) ∨
    (∃ p, FirstOf (g.Signal w) p ∧
      g.analyse w (crossingTimes w g.THR) out = g.realSignal w p.1 (g.counted w (crossingTimes w g.THR) out)) ∨
    (∃ p e, g.NoSignal w ∧ g.OnlySingle w p ∧ FirstOf (Crossing w g.THR) e ∧
      g.analyse w (crossingTimes w g.THR) out = g.oneSingle w e (g.counted w (crossingTimes w g.THR) out)) ∨
    (∃ p singles, g.NoSignal w ∧ g.Several w ∧ FirstOf (g.Single w) p ∧
      singles.Pairwise (fun p q => p.2 < q.2) ∧ (∀ q, q ∈ singles ↔ g.Single w q) ∧
      g.analyse w (crossingTimes w g.THR) out = g.manyPhe w singles p.1 (g.counted w (crossingTimes w g.THR) out)) := by
  -- the two filtered lists hold the pulses of their kind, in the order of their ends
  have hsignals := mem_signals (g := g) hw
  have hsingles := mem_singles (g := g) hw
  have hordered := singles_ordered (g := g) hw
  have hsignalsOrdered := (crossingTimes_ordered hw g.THR).filter g.isSignal
  unfold analyse
  cases hsig : (crossingTimes w g.THR).filter g.isSignal with
  | cons p rest =>
      rw [hsig] at hsignals hsignalsOrdered
      exact Or.inr (Or.inl ⟨p, firstOf_of_ordered hsignalsOrdered hsignals, rfl⟩)
  | nil =>
      have hno : g.NoSignal w := noSignal_of_nil hw hsig
      match hsin : (crossingTimes w g.THR).filter (g.isSingle w.length) with
      | [] =>
          refine Or.inl ⟨hno, ?_, rfl⟩
          intro p hp
          rw [hsin] at hsingles
          exact absurd ((hsingles p).mpr hp) List.not_mem_nil
      | [p] =>
          rw [hsin] at hsingles
          refine Or.inr (Or.inr (Or.inl ?_))
          have hmem : p ∈ crossingTimes w g.THR := by
            have hp : p ∈ (crossingTimes w g.THR).filter (g.isSingle w.length) := by
              rw [hsin]
              exact List.mem_singleton.mpr rfl
            exact (List.mem_filter.mp hp).1
          have honly : g.OnlySingle w p :=
            ⟨(hsingles p).mp (List.mem_singleton.mpr rfl), fun q hq => List.mem_singleton.mp ((hsingles q).mpr hq)⟩
          -- the list of all crossings starts with its first one, be it the single or not
          obtain ⟨e, rest, hall, hfirst⟩ := exists_first_crossing hw hmem
          rw [hall]
          exact ⟨p, e, hno, honly, hfirst, rfl⟩
      | p :: q :: rest =>
          rw [hsin] at hsingles hordered
          exact Or.inr (Or.inr (Or.inr ⟨p, p :: q :: rest, hno, several_of_ordered hordered hsingles,
            firstOf_of_ordered hordered hsingles, hordered, hsingles, rfl⟩))

/-- **A statement about the analysis** is a statement for each of the ways, about the pulses that decide which one it
    is. -/
theorem analyse_iff (hw : w ≠ []) (out : CalorimeterSiPMHit) {X : Reading CalorimeterSiPMHit → Prop} {N R : Prop}
    {S M : Int × Int → Prop} {O : Int × Int → Int × Int → Prop}
    (hnoise : X (g.noise w (g.counted w (crossingTimes w g.THR) out)) ↔ N)
    (hsignal : ∀ p, FirstOf (g.Signal w) p →
      (X (g.realSignal w p.1 (g.counted w (crossingTimes w g.THR) out)) ↔ S p))
    (hone : ∀ p e, g.NoSignal w → g.OnlySingle w p → FirstOf (Crossing w g.THR) e →
      (X (g.oneSingle w e (g.counted w (crossingTimes w g.THR) out)) ↔ O p e))
    (hmany : ∀ p singles, g.NoSignal w → FirstOf (g.Single w) p → singles.Pairwise (fun p q => p.2 < q.2) →
      (∀ q, q ∈ singles ↔ g.Single w q) →
      (X (g.manyPhe w singles p.1 (g.counted w (crossingTimes w g.THR) out)) ↔ R ∧ M p)) :
    X (g.analyse w (crossingTimes w g.THR) out) ↔
      (g.NoSignal w → (∀ p, ¬ g.Single w p) → N) ∧ (∀ p, FirstOf (g.Signal w) p → S p) ∧
      (g.NoSignal w → ∀ p, g.OnlySingle w p → ∀ e, FirstOf (Crossing w g.THR) e → O p e) ∧
      (g.NoSignal w → g.Several w → R ∧ ∀ p, FirstOf (g.Single w) p → M p) := by
  rcases analyse_cases (g := g) hw out with ⟨hno, hnone, h⟩ | ⟨p, hp, h⟩ | ⟨p, e, hno, honly, he, h⟩ |
    ⟨p, singles, hno, hseveral, hp, hordered, hmem, h⟩
  · rw [h, hnoise]
    constructor
    · intro hN
      refine ⟨fun _ _ => hN, fun p hp => (hno.not_firstOf hp).elim, fun _ p hp => absurd hp.1 (hnone p), ?_⟩
      rintro _ ⟨p, _, hp, _⟩
      exact absurd hp (hnone p)
    · exact fun hall => hall.1 hno hnone
  · rw [h, hsignal p hp]
    constructor
    · intro hS
      refine ⟨fun hno => (hno.not_firstOf hp).elim, ?_, fun hno => (hno.not_firstOf hp).elim,
        fun hno => (hno.not_firstOf hp).elim⟩
      intro q hq
      rwa [FirstOf.unique hw (fun _ h => h.1) hq hp]
    · exact fun hall => hall.2.1 p hp
  · rw [h, hone p e hno honly he]
    constructor
    · intro hO
      refine ⟨fun _ hnone => absurd honly.1 (hnone p), fun q hq => (hno.not_firstOf hq).elim, ?_,
        fun _ hseveral => absurd hseveral honly.not_several⟩
      intro _ q hq e' he'
      rwa [honly.2 q hq.1, FirstOf.unique hw (fun _ h => h) he' he]
    · exact fun hall => hall.2.2.1 hno p honly e he
  · rw [h, hmany p singles hno hp hordered hmem]
    constructor
    · rintro ⟨hR, hM⟩
      refine ⟨fun _ hnone => absurd hp.1 (hnone p), fun q hq => (hno.not_firstOf hq).elim,
        fun _ q hq => absurd hseveral hq.not_several, fun _ _ => ⟨hR, ?_⟩⟩
      intro q hq
      rwa [FirstOf.unique hw (fun _ h => h.1) hq hp]
    · intro hall
      obtain ⟨hR, hM⟩ := hall.2.2.2 hno hseveral
      exact ⟨hR, hM p hp⟩

end Ways

/-! ## Windows -/

section Windows

variable {g : Setting} {w : List ℚ}

/-- The last sample of the charge of `noise` and `one_phe`. -/
def headEnd (g : Setting) (size : Nat) : Int :=
  let last := (g.NSBs + g.NSAs).bmod (2 ^ 32)
  if last < 0 ∨ last ≥ size then size - 1 else last

theorem headSum_eq (g : Setting) (w : List ℚ) : g.headSum w = sumSamples w 0 (g.headEnd w.length) := by
  unfold headSum headEnd sumAll
  dsimp only
  split <;> rfl

theorem fits_headEnd (g : Setting) (w : List ℚ) : Fits w 0 (g.headEnd w.length) := by
  unfold headEnd Fits
  dsimp only
  split
  · intro _
    omega
  · intro _
    omega

/-- The window of a signal has to start at an `int`. -/
theorem fits_signalWindow (hsize : w.length < 2 ^ 31) (first : Int) :
    Fits w (g.signalWindow w.length first).1 (g.signalWindow w.length first).2 ↔ first - g.NSBs < 2 ^ 31 := by
  unfold signalWindow Fits
  dsimp only
  rw [asInt_eq, asInt_eq]
  split_ifs <;> omega

/-- The window of a photoelectron reaches one sample beyond the waveform, or starts at a number that is not an `int`. -/
def Overruns (g : Setting) (w : List ℚ) (t : Int) : Prop :=
  (t + g.NSAs = w.length ∧ t - g.NSBs ≤ w.length) ∨ 2 ^ 31 ≤ t - g.NSBs

theorem fits_pheWindow (hsize : w.length < 2 ^ 31) (t : Int) :
    Fits w (g.pheWindow w.length t).1 (g.pheWindow w.length t).2 ↔ ¬ g.Overruns w t := by
  unfold pheWindow Fits Overruns
  dsimp only
  rw [asInt_eq, asInt_eq]
  split_ifs <;> omega

/-- The windows in the waveform are those around the maximum. -/
theorem windowSum_pheWindow (hsize : w.length < 2 ^ 31) {t : Int} (ht : ¬ g.Overruns w t) :
    windowSum w (g.pheWindow w.length t).1 (g.pheWindow w.length t).2 = windowSum w (t - g.NSBs) (t + g.NSAs) := by
  apply windowSum_congr
  intro i hlt
  unfold Overruns at ht
  unfold pheWindow
  dsimp only
  rw [asInt_eq, asInt_eq]
  split_ifs <;> omega

theorem windowSum_signalWindow (hsize : w.length < 2 ^ 31) {first : Int} (hfirst : first - g.NSBs < 2 ^ 31) :
    windowSum w (g.signalWindow w.length first).1 (g.signalWindow w.length first).2
      = windowSum w (first - g.NSBs) (first - g.NSBs + g.NSAMPLESs) := by
  apply windowSum_congr
  intro i hlt
  unfold signalWindow
  dsimp only
  rw [asInt_eq, asInt_eq]
  split_ifs <;> omega

end Windows

/-! ## What the branches read -/

section Reads

variable {g : Setting} {w : List ℚ} {out : CalorimeterSiPMHit}

theorem within_headSum (g : Setting) (w : List ℚ) : (g.headSum w).Within w.length := by
  rw [headSum_eq, within_sumSamples]
  exact fits_headEnd g w

theorem within_noise (g : Setting) (w : List ℚ) (out : CalorimeterSiPMHit) : (g.noise w out).Within w.length := by
  unfold noise
  rw [within_bind, within_settled]
  exact ⟨within_headSum g w, fun _ _ => within_pure _ _⟩

theorem within_timeOf {first : Int} :
    (g.timeOf w first).Within w.length ↔ InBounds w.length first ∧ InBounds w.length (first - 1) := by
  unfold timeOf
  rw [within_bind, within_get]
  constructor
  · rintro ⟨hfirst, hrest⟩
    have hmin := hrest _ (value_get hfirst 0)
    rw [within_bind, within_get] at hmin
    exact ⟨hfirst, hmin.1⟩
  · rintro ⟨hfirst, hbefore⟩
    refine ⟨hfirst, fun max _ => ?_⟩
    rw [within_bind, within_get]
    exact ⟨hbefore, fun _ _ => within_pure _ _⟩

theorem within_timeOrZero {first : Int} (hlt : first < w.length) :
    (g.timeOrZero w first).Within w.length ↔ 1 ≤ first := by
  unfold timeOrZero
  split
  · have hone : 1 ≤ first := by omega
    simp [hone]
  · rw [within_timeOf]
    unfold InBounds
    omega

theorem within_realSignal (hsize : w.length < 2 ^ 31) (hw : w ≠ []) {p : Int × Int} (hp : Crossing w g.THR p) :
    (g.realSignal w p.1 out).Within w.length ↔ 1 ≤ p.1 ∧ p.1 - g.NSBs < 2 ^ 31 := by
  have hlt : p.1 < w.length := lt_of_lt_of_le hp.lt hp.le
  unfold realSignal
  simp only [within_bind, within_settled, within_pure, value_settled, within_sumSamples, fits_signalWindow hsize,
    within_maximumOfAll hw, within_timeOrZero hlt]
  simp [and_comm]

theorem within_oneSingle {e : Int × Int} (he : Crossing w g.THR e) :
    (g.oneSingle w e out).Within w.length ↔
      e.2 < w.length ∧ (e.1 = 0 → ∀ t, Peak w e t → g.AtEdge w.length t) := by
  have hlt := he.lt
  unfold oneSingle
  rw [within_bind, within_getMaximum hlt.le]
  constructor
  · rintro ⟨⟨hge, hin⟩, hrest⟩
    refine ⟨hin, ?_⟩
    intro hzero t ht
    have hvalue := value_getMaximum ((he.peak_iff hin).mpr ht) hge hin
    have hreads := hrest _ hvalue
    -- away from the ends the time is computed, and sample -1 is read
    by_contra hedge
    dsimp only at hreads
    rw [if_neg hedge, within_bind] at hreads
    have hafter := hreads.2 _ (value_settled _)
    rw [within_bind, within_settled, within_timeOf, hzero] at hafter
    have hbefore := hafter.1.2.1
    omega
  · rintro ⟨hin, hzero⟩
    have hge : 0 ≤ e.1 := he.nonneg_of_lt hin
    refine ⟨⟨hge, hin⟩, ?_⟩
    rintro ⟨A, Tmax⟩ hvalue
    obtain ⟨t, ht⟩ := he.exists_peak
    rw [value_getMaximum ((he.peak_iff hin).mpr ht) hge hin] at hvalue
    obtain ⟨rfl, rfl⟩ := Prod.mk.inj (Option.some.inj hvalue)
    dsimp only
    split
    · simp only [within_bind, within_settled, within_pure, value_settled, within_headSum]
      simp
    · rename_i hedge
      -- a crossing at the start is excluded here
      have hone : 1 ≤ e.1 := by
        by_contra hlt'
        exact hedge (hzero (by omega) t ht)
      have htime : (g.timeOf w e.1).Within w.length := by
        rw [within_timeOf]
        unfold InBounds
        omega
      have hall : (sumAll w).Within w.length := (within_sumSamples w).mpr (fits_all w)
      simp only [within_bind, within_settled, within_pure, value_settled, hall, htime]
      simp

/-- `A` and `Qraw` after a pulse, as far as they are determined. -/
def afterPhe (g : Setting) (w : List ℚ) (s : Option ℚ × Option ℚ) (p : Int × Int) : Option ℚ × Option ℚ :=
  match (getMaximum w p.1 p.2).value with
  | none => (none, none)
  | some (max, Tmax) =>
    (s.1.map (fun A => if A < max then max else A), s.2.bind (fun Qraw =>
      (sumSamples w (g.pheWindow w.length Tmax).1 (g.pheWindow w.length Tmax).2).value.map (Qraw + ·)))

theorem value_addPhe (s : Option ℚ × Option ℚ) (p : Int × Int) :
    (g.addPhe w s p).value = some (g.afterPhe w s p) := by
  unfold addPhe afterPhe
  rw [value_bind, value_settled, Option.bind_some]
  cases (getMaximum w p.1 p.2).value with
  | none => rfl
  | some m => rfl

theorem within_addPhe (hsize : w.length < 2 ^ 31) {p : Int × Int} (hp : Crossing w g.THR p) (s : Option ℚ × Option ℚ) :
    (g.addPhe w s p).Within w.length ↔ p.2 < w.length ∧ ∀ t, Peak w p t → ¬ g.Overruns w t := by
  have hlt := hp.lt
  unfold addPhe
  rw [within_bind, within_settled, within_getMaximum hlt.le]
  constructor
  · rintro ⟨⟨hge, hin⟩, hrest⟩
    refine ⟨hin, ?_⟩
    intro t ht
    have hreads := hrest _ (value_settled _)
    -- the maximum is determined, so the window is the one around it
    rw [value_getMaximum ((hp.peak_iff hin).mpr ht) hge hin] at hreads
    rw [within_bind, within_settled, within_sumSamples, fits_pheWindow hsize] at hreads
    exact hreads.1
  · rintro ⟨hin, hover⟩
    have hge : 0 ≤ p.1 := hp.nonneg_of_lt hin
    refine ⟨⟨hge, hin⟩, ?_⟩
    intro max hmax
    obtain ⟨t, ht⟩ := hp.exists_peak
    rw [value_settled, value_getMaximum ((hp.peak_iff hin).mpr ht) hge hin] at hmax
    rw [← Option.some.inj hmax]
    rw [within_bind, within_settled, within_sumSamples, fits_pheWindow hsize]
    exact ⟨hover t ht, fun _ _ => within_pure _ _⟩

theorem within_manyPhe (hsize : w.length < 2 ^ 31) {singles : List (Int × Int)}
    (hsingles : ∀ p ∈ singles, Crossing w g.THR p) {first : Int} (hlt : first < w.length) :
    (g.manyPhe w singles first out).Within w.length ↔
      (∀ p ∈ singles, p.2 < w.length ∧ ∀ t, Peak w p t → ¬ g.Overruns w t) ∧ 1 ≤ first := by
  unfold manyPhe
  rw [within_bind, within_foldlM value_addPhe (fun p hp s => within_addPhe hsize (hsingles p hp) s)]
  refine and_congr_right (fun _ => ?_)
  constructor
  · intro hrest
    have htime := hrest _ (value_foldlM (fun p _ s => value_addPhe s p) _)
    rw [within_bind, within_settled, within_timeOrZero hlt] at htime
    exact htime.1
  · rintro hfirst ⟨A, Qraw⟩ _
    dsimp only
    rw [within_bind, within_settled, within_timeOrZero hlt]
    exact ⟨hfirst, fun _ _ => within_pure _ _⟩

end Reads

/-- **The pulses for which nothing outside the waveform is read.** -/
structure ReadsInside (g : Setting) (w : List ℚ) : Prop where
  signal : ∀ p, FirstOf (g.Signal w) p → 1 ≤ p.1 ∧ p.1 - g.NSBs < 2 ^ 31
  one : g.NoSignal w → (∃ p, g.OnlySingle w p) → ∀ e, FirstOf (Crossing w g.THR) e →
    e.2 < w.length ∧ (e.1 = 0 → ∀ t, Peak w e t → g.AtEdge w.length t)
  many : g.NoSignal w → g.Several w →
    (∀ p, g.Single w p → p.2 < w.length ∧ ∀ t, Peak w p t → ¬ g.Overruns w t) ∧
    ∀ p, FirstOf (g.Single w) p → 1 ≤ p.1

section Inside

variable {g : Setting} {w : List ℚ}

theorem within_analyse (hsize : w.length < 2 ^ 31) (hw : w ≠ []) (out : CalorimeterSiPMHit) :
    (g.analyse w (crossingTimes w g.THR) out).Within w.length ↔ g.ReadsInside w := by
  rw [analyse_iff hw out (X := fun x => x.Within w.length) (N := True) (iff_of_true (within_noise _ _ _) trivial)
    (fun p hp => within_realSignal hsize hw hp.1.1)
    (fun p e _ _ he => within_oneSingle he.1)
    (fun p singles _ hp _ hmem => ?_)]
  · constructor
    · rintro ⟨_, hsignal, hone, hmany⟩
      exact ⟨hsignal, fun hno ⟨p, hp⟩ => hone hno p hp, hmany⟩
    · rintro ⟨hsignal, hone, hmany⟩
      exact ⟨fun _ _ => trivial, hsignal, fun hno p hp => hone hno ⟨p, hp⟩, hmany⟩
  · have hcrossing : ∀ q ∈ singles, Crossing w g.THR q := fun q hq => ((hmem q).mp hq).1
    rw [within_manyPhe hsize hcrossing (lt_of_lt_of_le hp.1.1.lt hp.1.1.le)]
    simp only [hmem]

end Inside

end Calorimeterfa250Converter.Setting

/-! ## The whole conversion -/

namespace Calorimeterfa250Converter

/-- The pedestal of the first samples. -/
def firstPedestal (c : Calorimeterfa250Converter) (input : Fa250Mode1CalibPedSubHit) : Pedestal :=
  pedestalFrom input.samples 0 (inSamples c.NPED input.dT)

/-- The waveform less its pedestal. -/
def waveform (c : Calorimeterfa250Converter) (input : Fa250Mode1CalibPedSubHit) : List ℚ :=
  subtract input.samples (c.firstPedestal input).mean

/-- The mean of all samples. -/
def meanOf (samples : List ℚ) : ℚ := (∑ i ∈ Finset.range samples.length, sample samples i) / samples.length

section Convert

variable {c : Calorimeterfa250Converter} {calib : ℚ × ℚ × ℚ} {input : Fa250Mode1CalibPedSubHit}

/-- What the hit holds when the pulses are looked at. -/
def pedestalHit (c : Calorimeterfa250Converter) (input : Fa250Mode1CalibPedSubHit) : CalorimeterSiPMHit where
  average := some (meanOf input.samples)
  pedMean := some (c.firstPedestal input).mean
  pedRMS := (c.firstPedestal input).rms
  RMSflag := rmsAtMost (c.firstPedestal input).rms input.RMS

theorem length_waveform : (c.waveform input).length = input.samples.length := length_subtract _ _

theorem waveform_ne_nil (hsamples : input.samples ≠ []) : c.waveform input ≠ [] :=
  (subtract_ne_nil _ _).mpr hsamples

theorem fits_pedestal {samples : List ℚ} {n : Int} : Fits samples 0 (0 + n - 1) ↔ n ≤ samples.length := by
  unfold Fits
  omega

/-- Without samples the scan for crossings reads what is not there. -/
theorem convertMode1Hit_empty (hempty : input.samples = []) : (c.convertMode1Hit calib input).value = none := by
  have hscan : ¬ ∀ i ∈ scanReads input.samples.length, InBounds input.samples.length i := by
    intro h
    have hzero := (h 0 List.mem_cons_self).2
    rw [hempty] at hzero
    exact absurd hzero (lt_irrefl _)
  unfold convertMode1Hit
  rw [value_bind, value_sumAll, Option.bind_some, value_bind]
  cases (pedestal input.samples 0 (c.setting calib input).NPEDs).value with
  | none => rfl
  | some ped =>
      rw [Option.bind_some, value_bind, value_loop_of_not _ _ hscan]
      rfl

/-- The pedestal reads beyond the waveform. -/
theorem convertMode1Hit_long (hlong : ¬ (c.setting calib input).NPEDs ≤ input.samples.length) :
    (c.convertMode1Hit calib input).value = none ∧
      ¬ (c.convertMode1Hit calib input).Within input.samples.length := by
  have hfits : ¬ Fits input.samples 0 (0 + (c.setting calib input).NPEDs - 1) := fun h => hlong (fits_pedestal.mp h)
  unfold convertMode1Hit
  constructor
  · rw [value_bind, value_sumAll, Option.bind_some, value_bind, value_pedestal_of_not hfits]
    rfl
  · intro hwithin
    rw [within_bind, value_sumAll] at hwithin
    have hped := hwithin.2 _ rfl
    rw [within_bind, within_pedestal] at hped
    exact hfits hped.1

/-- A pedestal without samples is not a number. -/
theorem convertMode1Hit_nan (hsamples : input.samples ≠ []) (hzero : (c.setting calib input).NPEDs = 0) :
    (c.convertMode1Hit calib input).value = some
        { average := some (meanOf input.samples), pedMean := none, pedRMS := none, RMSflag := false, Qraw := none } ∧
      (c.convertMode1Hit calib input).Within input.samples.length := by
  have hscan := scanReads_inBounds (List.length_pos_iff.mpr hsamples)
  have hhead := (value_sumSamples _ (Setting.fits_headEnd (c.setting calib input) input.samples))
  rw [← Setting.headSum_eq] at hhead
  unfold convertMode1Hit
  constructor
  · rw [value_bind, value_sumAll, Option.bind_some, value_bind, hzero, value_pedestal_zero, Option.bind_some,
      value_bind, value_loop _ _ 0 hscan, Option.bind_some]
    dsimp only
    rw [value_bind, hhead]
    rfl
  · rw [within_bind, value_sumAll]
    refine ⟨(within_sumSamples _).mpr (fits_all _), ?_⟩
    intro sum _
    rw [within_bind, within_pedestal, hzero, fits_pedestal, value_pedestal_zero]
    refine ⟨by omega, ?_⟩
    intro ped hped
    rw [← Option.some.inj hped, within_bind, within_loop]
    refine ⟨hscan, ?_⟩
    intro _ _
    dsimp only
    rw [within_bind]
    exact ⟨Setting.within_headSum _ _, fun _ _ => within_pure _ _⟩

/-- **The conversion is the analysis of the waveform** when there is a pedestal. -/
theorem convertMode1Hit_eq (hsamples : input.samples ≠ []) (hzero : (c.setting calib input).NPEDs ≠ 0)
    (hshort : (c.setting calib input).NPEDs ≤ input.samples.length) :
    (c.convertMode1Hit calib input).value =
        ((c.setting calib input).analyse (c.waveform input)
          (crossingTimes (c.waveform input) (c.setting calib input).THR) (c.pedestalHit input)).value ∧
      ((c.convertMode1Hit calib input).Within input.samples.length ↔
        ((c.setting calib input).analyse (c.waveform input)
          (crossingTimes (c.waveform input) (c.setting calib input).THR) (c.pedestalHit input)).Within
            (c.waveform input).length) := by
  have hscan := scanReads_inBounds (List.length_pos_iff.mpr hsamples)
  have hped := value_pedestal (fits_pedestal.mpr hshort) hzero
  unfold convertMode1Hit
  constructor
  · rw [value_bind, value_sumAll, Option.bind_some, value_bind, hped, Option.bind_some,
      value_bind, value_loop _ _ 0 hscan, Option.bind_some]
    rfl
  · rw [length_waveform, within_bind, value_sumAll]
    constructor
    -- the reads of the analysis come last
    · rintro ⟨_, h⟩
      have hafter := h _ rfl
      rw [within_bind, hped] at hafter
      have hanalyse := hafter.2 _ rfl
      rw [within_bind] at hanalyse
      exact hanalyse.2 _ (value_loop _ _ 0 hscan ())
    · intro h
      refine ⟨(within_sumSamples _).mpr (fits_all _), ?_⟩
      intro sum hsum
      rw [← Option.some.inj hsum, within_bind, within_pedestal, fits_pedestal, hped]
      refine ⟨hshort, ?_⟩
      intro ped hped'
      rw [← Option.some.inj hped', within_bind, within_loop]
      exact ⟨hscan, fun _ _ => h⟩

end Convert

/-- **Exactly when the conversion stays in the waveform.** -/
theorem convertMode1Hit_within_iff (c : Calorimeterfa250Converter) (calib : ℚ × ℚ × ℚ)
    (input : Fa250Mode1CalibPedSubHit) (hsamples : input.samples ≠ []) (hsize : input.samples.length < 2 ^ 31) :
    (c.convertMode1Hit calib input).Within input.samples.length ↔
      (c.setting calib input).NPEDs ≤ input.samples.length ∧
      ((c.setting calib input).NPEDs ≠ 0 → (c.setting calib input).ReadsInside (c.waveform input)) := by
  by_cases hshort : (c.setting calib input).NPEDs ≤ input.samples.length
  · by_cases hzero : (c.setting calib input).NPEDs = 0
    · simp [hzero, (convertMode1Hit_nan hsamples hzero).2]
    · rw [(convertMode1Hit_eq hsamples hzero hshort).2,
        Setting.within_analyse (by rwa [length_waveform]) (waveform_ne_nil hsamples)]
      simp [hshort, hzero]
  · simp [hshort, (convertMode1Hit_long hshort).2]

/-- A converter with windows of one sample. -/
def narrow : Calorimeterfa250Converter := { NSB := 4, NSA := 4, NPED := 4, NSAMPLES := 4, thrDB := none }

/-- A hit of a digitiser that samples every 4 ns. -/
def hitOf (samples : List ℚ) : Fa250Mode1CalibPedSubHit :=
  { channel := ⟨0, 0, 0⟩, samples, dT := 4, ped := 0, RMS := 1 }

theorem convertMode1Hit_within_quiet :
    (hitOf [0, 0, 9, 0]).samples ≠ [] ∧ (hitOf [0, 0, 9, 0]).samples.length < 2 ^ 31 ∧
      ((narrow.convertMode1Hit (5, 4, 100) (hitOf [0, 0, 9, 0])).Within 4 ↔
        (narrow.setting (5, 4, 100) (hitOf [0, 0, 9, 0])).NPEDs ≤ 4 ∧
        ((narrow.setting (5, 4, 100) (hitOf [0, 0, 9, 0])).NPEDs ≠ 0 →
          (narrow.setting (5, 4, 100) (hitOf [0, 0, 9, 0])).ReadsInside (narrow.waveform (hitOf [0, 0, 9, 0])))) :=
  ⟨by simp [hitOf], by simp [hitOf],
    convertMode1Hit_within_iff narrow (5, 4, 100) (hitOf [0, 0, 9, 0]) (by simp [hitOf]) (by simp [hitOf])⟩

/-- The last sample is over the threshold: the search for the maximum of the pulse goes one sample too far. -/
theorem convertMode1Hit_leaves :
    ¬ ∀ (c : Calorimeterfa250Converter) (calib : ℚ × ℚ × ℚ) (input : Fa250Mode1CalibPedSubHit),
      input.samples ≠ [] → 0 < input.dT → 0 ≤ c.NPED → 0 ≤ c.NSB → 0 ≤ c.NSA → 0 ≤ c.NSAMPLES →
      (c.convertMode1Hit calib input).Within input.samples.length := by
  intro h
  have hwithin := h narrow (5, 4, 100) (hitOf [0, 0, 9]) (by simp [hitOf]) (by decide +kernel) (by decide) (by decide)
    (by decide) (by decide)
  revert hwithin
  decide +kernel

end Calorimeterfa250Converter

end BdxReco
