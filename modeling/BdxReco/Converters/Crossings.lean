import BdxReco.Lib.Blocks
import Mathlib.Algebra.Order.Field.Rat
import Mathlib.Data.List.Induction

/-!
# `Converters.Crossings` — the threshold crossings of a waveform

Both the calorimeter and the inner veto converter look for the pulses of a waveform: `convertMode1Hit` goes through
the samples once, opens a pulse where a sample rises over the threshold and closes it where one falls below. The
inner veto converter takes the time over a second threshold in the same loop.

Both tests ask that the two neighbours lie strictly on different sides. `crossingTimes_iff` says what follows for
the pulses next to a sample that sits exactly on the threshold.
-/

namespace BdxReco

open Blocks

/-- A sample of a waveform. -/
def sample (w : List ℚ) (ii : Nat) : ℚ := w.getD ii 0

/-- `m_thisCrossingTime` and `m_crossingTimes`. -/
structure CrossingScan where
  first : Int
  second : Int
  crossingTimes : List (Int × Int)
  deriving DecidableEq, Repr

namespace CrossingScan

/-- What stands before the loop. -/
def start (w : List ℚ) (thr : ℚ) : CrossingScan :=
  { first := if sample w 0 > thr then 0 else -1, second := -1, crossingTimes := [] }

/-- The body of the loop. -/
def step (w : List ℚ) (thr : ℚ) (s : CrossingScan) (ii : Nat) : CrossingScan :=
  if sample w ii > thr ∧ sample w (ii - 1) < thr then { s with first := ii }
  else if sample w ii < thr ∧ sample w (ii - 1) > thr ∧ s.first ≠ -1 then
    { first := -1, second := -1, crossingTimes := s.crossingTimes ++ [(s.first, (ii : Int))] }
  else s

/-- "It may happen that the last sample is still over m_THR!" -/
def finish (w : List ℚ) (thr : ℚ) (s : CrossingScan) : List (Int × Int) :=
  if sample w (w.length - 1) > thr then s.crossingTimes ++ [(s.first, (w.length : Int))] else s.crossingTimes

end CrossingScan

/-- `for (int ii = 1; ii < size; ii++)`: the values of `ii`. -/
def loopIndices (size : Nat) : List Nat := List.range' 1 (size - 1)

/-- `m_crossingTimes` of `Calorimeterfa250Converter::convertMode1Hit`. -/
def Calorimeterfa250Converter.crossingTimes (waveform : List ℚ) (thr : ℚ) : List (Int × Int) :=
  ((loopIndices waveform.length).foldl (CrossingScan.step waveform thr)
    (CrossingScan.start waveform thr)).finish waveform thr

/-- The local variables of the loop of `IntVetofa250Converter::convertMode1Hit`. -/
structure IntVetoScan extends CrossingScan where
  totPre : ℚ := 0
  totPost : ℚ := 0

namespace IntVetoScan

/-- The body of the loop: the crossings, then the time over threshold. -/
def step (w : List ℚ) (thr totThr dT : ℚ) (s : IntVetoScan) (ii : Nat) : IntVetoScan :=
  let prev := sample w (ii - 1)
  let cur := sample w ii
  let crossing : ℚ := ((ii : ℚ) - 1 + (totThr - cur) / (cur - prev)) * dT
  { toCrossingScan := s.toCrossingScan.step w thr ii
    totPre := if cur ≥ totThr ∧ prev < totThr then crossing else s.totPre
    totPost := if cur < totThr ∧ prev ≥ totThr then crossing else s.totPost }

/-- `m_TOT`. -/
def tot (s : IntVetoScan) : ℚ := if s.totPost > s.totPre then s.totPost - s.totPre else -1

end IntVetoScan

namespace IntVetofa250Converter

/-- The loop of `convertMode1Hit`. -/
def scan (waveform : List ℚ) (thr totThr dT : ℚ) : IntVetoScan :=
  (loopIndices waveform.length).foldl (IntVetoScan.step waveform thr totThr dT)
    { toCrossingScan := CrossingScan.start waveform thr }

/-- `m_crossingTimes`. -/
def crossingTimes (waveform : List ℚ) (thr totThr dT : ℚ) : List (Int × Int) :=
  (scan waveform thr totThr dT).toCrossingScan.finish waveform thr

end IntVetofa250Converter

/-! ## Pulses -/

/-- The sample is over the threshold. -/
def Above (w : List ℚ) (thr : ℚ) (i : Nat) : Prop := thr < sample w i

/-- A pulse: a maximal block of samples over the threshold. -/
def IsPulse (w : List ℚ) (thr : ℚ) (p : Int × Int) : Prop :=
  ∃ a b : Nat, p = ((a : Int), (b : Int)) ∧ Block (Above w thr) w.length a b

/-- **The list of all pulses**, each once and in order. -/
structure IsPulseList (w : List ℚ) (thr : ℚ) (l : List (Int × Int)) : Prop where
  ordered : l.Pairwise (fun p q => p.1 < q.1)
  mem_iff : ∀ p, p ∈ l ↔ IsPulse w thr p

/-- No sample over the threshold has a neighbour exactly on it. -/
def NoneTouches (w : List ℚ) (thr : ℚ) : Prop :=
  ∀ i, i + 1 < w.length → ¬ (Above w thr i ∧ sample w (i + 1) = thr) ∧ ¬ (sample w i = thr ∧ Above w thr (i + 1))

/-! ## The two loops find the same crossings -/

theorem toCrossingScan_foldl (w : List ℚ) (thr totThr dT : ℚ) (l : List Nat) (s : IntVetoScan) :
    (l.foldl (IntVetoScan.step w thr totThr dT) s).toCrossingScan
      = l.foldl (CrossingScan.step w thr) s.toCrossingScan := by
  induction l generalizing s with
  | nil => rfl
  | cons ii l ih =>
      rw [List.foldl_cons, List.foldl_cons, ih]
      rfl

theorem crossingTimes_eq (w : List ℚ) (thr totThr dT : ℚ) :
    IntVetofa250Converter.crossingTimes w thr totThr dT = Calorimeterfa250Converter.crossingTimes w thr := by
  unfold IntVetofa250Converter.crossingTimes IntVetofa250Converter.scan Calorimeterfa250Converter.crossingTimes
  rw [toCrossingScan_foldl]

/-! ## The state of the loop -/

/-- The state once `ii` has gone through `1, …, n - 1`. -/
def scanned (w : List ℚ) (thr : ℚ) (n : Nat) : CrossingScan :=
  (loopIndices n).foldl (CrossingScan.step w thr) (CrossingScan.start w thr)

theorem loopIndices_succ {n : Nat} (hn : 0 < n) : loopIndices (n + 1) = loopIndices n ++ [n] := by
  unfold loopIndices
  obtain ⟨m, rfl⟩ : ∃ m, n = m + 1 := ⟨n - 1, by omega⟩
  simp only [Nat.add_sub_cancel]
  rw [List.range'_concat]
  simp [Nat.add_comm]

theorem scanned_succ (w : List ℚ) (thr : ℚ) {n : Nat} (hn : 0 < n) :
    scanned w thr (n + 1) = (scanned w thr n).step w thr n := by
  unfold scanned
  rw [loopIndices_succ hn, List.foldl_append]
  rfl

section Step

variable {w : List ℚ} {thr : ℚ} {s : CrossingScan} {ii : Nat}

theorem step_rise (hcur : sample w ii > thr) (hprev : sample w (ii - 1) < thr) :
    s.step w thr ii = { s with first := ii } := by
  unfold CrossingScan.step
  rw [if_pos ⟨hcur, hprev⟩]

theorem step_fall (hcur : sample w ii < thr) (hprev : sample w (ii - 1) > thr) (hfirst : s.first ≠ -1) :
    s.step w thr ii =
      { first := -1, second := -1, crossingTimes := s.crossingTimes ++ [(s.first, (ii : Int))] } := by
  unfold CrossingScan.step
  rw [if_neg (fun h => absurd h.1 (not_lt.mpr hcur.le)), if_pos ⟨hcur, hprev, hfirst⟩]

theorem step_stay (hrise : ¬ (sample w ii > thr ∧ sample w (ii - 1) < thr))
    (hfall : ¬ (sample w ii < thr ∧ sample w (ii - 1) > thr ∧ s.first ≠ -1)) : s.step w thr ii = s := by
  unfold CrossingScan.step
  rw [if_neg hrise, if_neg hfall]

/-- **What a pass can do**: open a pulse, close the open one, or nothing. -/
theorem step_cases (s : CrossingScan) (w : List ℚ) (thr : ℚ) (ii : Nat) :
    (sample w ii > thr ∧ sample w (ii - 1) < thr ∧ s.step w thr ii = { s with first := ii }) ∨
    (sample w ii < thr ∧ sample w (ii - 1) > thr ∧ s.first ≠ -1 ∧ s.step w thr ii =
      { first := -1, second := -1, crossingTimes := s.crossingTimes ++ [(s.first, (ii : Int))] }) ∨
    s.step w thr ii = s := by
  by_cases hrise : sample w ii > thr ∧ sample w (ii - 1) < thr
  · exact Or.inl ⟨hrise.1, hrise.2, step_rise hrise.1 hrise.2⟩
  · by_cases hfall : sample w ii < thr ∧ sample w (ii - 1) > thr ∧ s.first ≠ -1
    · exact Or.inr (Or.inl ⟨hfall.1, hfall.2.1, hfall.2.2, step_fall hfall.1 hfall.2.1 hfall.2.2⟩)
    · exact Or.inr (Or.inr (step_stay hrise hfall))

end Step

/-! ## When no sample touches the threshold -/

/-- **The invariant of the scan**: `m_crossingTimes` holds the pulses that have ended before `n`, and `first` is the
    start of the one that is open, `-1` if none is. -/
structure ScanInv (w : List ℚ) (thr : ℚ) (n : Nat) (s : CrossingScan) : Prop where
  ordered : s.crossingTimes.Pairwise (fun p q => p.1 < q.1)
  mem_iff : ∀ p, p ∈ s.crossingTimes ↔
    ∃ a b : Nat, p = ((a : Int), (b : Int)) ∧ Block (Above w thr) n a b ∧ b < n
  isOpen : Above w thr (n - 1) → ∃ a : Nat, s.first = a ∧ Open (Above w thr) n a
  isClosed : ¬ Above w thr (n - 1) → s.first = -1

section Invariant

variable {w : List ℚ} {thr : ℚ}

theorem scanInv_start (w : List ℚ) (thr : ℚ) : ScanInv w thr 1 (CrossingScan.start w thr) where
  ordered := List.Pairwise.nil
  mem_iff p := by
    constructor
    · intro h
      simp [CrossingScan.start] at h
    · rintro ⟨a, b, _, hblock, hlt⟩
      have hab := hblock.lt
      omega
  isOpen h := by
    have habove : sample w 0 > thr := h
    refine ⟨0, ?_, by omega, ?_, Or.inl rfl⟩
    · simp [CrossingScan.start, habove]
    · intro i _ hi
      rwa [show i = 0 by omega]
  isClosed h := by
    have habove : ¬ sample w 0 > thr := h
    simp [CrossingScan.start, habove]

/-- When `n` does not end a pulse, the list of ended pulses stays. -/
theorem ScanInv.mem_iff_succ {n : Nat} {s : CrossingScan} (h : ScanInv w thr n s)
    (hnone : ¬ (Above w thr (n - 1) ∧ ¬ Above w thr n)) (p : Int × Int) :
    p ∈ s.crossingTimes ↔
      ∃ a b : Nat, p = ((a : Int), (b : Int)) ∧ Block (Above w thr) (n + 1) a b ∧ b < n + 1 := by
  rw [h.mem_iff]
  constructor
  · rintro ⟨a, b, hp, hended⟩
    exact ⟨a, b, hp, ended_succ_iff.mpr (Or.inl hended)⟩
  · rintro ⟨a, b, hp, hended⟩
    rcases ended_succ_iff.mp hended with hbefore | ⟨_, hopen, hno⟩
    · exact ⟨a, b, hp, hbefore⟩
    · have hlast := hopen.lt
      exact absurd ⟨hopen.holds (n - 1) (by omega) (by omega), hno⟩ hnone

/-- Between pulses nothing happens. -/
theorem ScanInv.step_between {n : Nat} {s : CrossingScan} (h : ScanInv w thr n s) (hprev : ¬ Above w thr (n - 1))
    (hnot : ¬ Above w thr n) : ScanInv w thr (n + 1) (s.step w thr n) := by
  have hsucc : n + 1 - 1 = n := by omega
  rw [step_stay (fun hup => hnot hup.1) (fun hdown => hprev hdown.2.1)]
  refine ⟨h.ordered, h.mem_iff_succ (fun hend => hprev hend.1), ?_, fun _ => h.isClosed hprev⟩
  rw [hsucc]
  exact fun habove => absurd habove hnot

/-- A sample below the threshold ends the open pulse. -/
theorem ScanInv.step_end {n : Nat} {s : CrossingScan} (h : ScanInv w thr n s) (hprev : Above w thr (n - 1))
    (hcur : sample w n < thr) : ScanInv w thr (n + 1) (s.step w thr n) := by
  have hsucc : n + 1 - 1 = n := by omega
  have hnot : ¬ Above w thr n := not_lt.mpr hcur.le
  obtain ⟨a, ha, hopen⟩ := h.isOpen hprev
  rw [step_fall hcur hprev (by rw [ha]; omega)]
  refine ⟨?_, ?_, ?_, fun _ => rfl⟩
  · refine List.pairwise_append.mpr ⟨h.ordered, List.pairwise_singleton _ _, ?_⟩
    intro p hp q hq
    obtain ⟨a', b', rfl, hblock, hlt⟩ := (h.mem_iff p).mp hp
    have hbefore := hblock.lt_open hlt hopen
    rw [List.mem_singleton.mp hq, ha]
    show (a' : Int) < (a : Int)
    omega
  · intro p
    rw [List.mem_append, List.mem_singleton, h.mem_iff, ha]
    constructor
    · rintro (⟨a', b', hp, hended⟩ | hp)
      · exact ⟨a', b', hp, ended_succ_iff.mpr (Or.inl hended)⟩
      · exact ⟨a, n, hp, ended_succ_iff.mpr (Or.inr ⟨rfl, hopen, hnot⟩)⟩
    · rintro ⟨a', b', hp, hended⟩
      rcases ended_succ_iff.mp hended with hbefore | ⟨hb, hopen', _⟩
      · exact Or.inl ⟨a', b', hp, hbefore⟩
      · refine Or.inr ?_
        rw [hp, hb, hopen'.unique hopen]
  · rw [hsucc]
    exact fun habove => absurd habove hnot

/-- **One pass keeps the invariant.** -/
theorem ScanInv.step {n : Nat} {s : CrossingScan} (h : ScanInv w thr n s)
    (hfall : ¬ (Above w thr (n - 1) ∧ sample w n = thr)) (hrise : ¬ (sample w (n - 1) = thr ∧ Above w thr n)) :
    ScanInv w thr (n + 1) (s.step w thr n) := by
  have hsucc : n + 1 - 1 = n := by omega
  rcases lt_trichotomy (sample w n) thr with hcur | hcur | hcur
  · -- below the threshold: it ends the open pulse, if there is one
    by_cases hprev : Above w thr (n - 1)
    · exact h.step_end hprev hcur
    · exact h.step_between hprev (not_lt.mpr hcur.le)
  · -- on the threshold: then no pulse was open
    have hnot : ¬ Above w thr n := by
      unfold Above
      rw [hcur]
      exact lt_irrefl thr
    exact h.step_between (fun hprev => hfall ⟨hprev, hcur⟩) hnot
  · -- over the threshold: it belongs to the open pulse, or opens one
    have habove : Above w thr n := hcur
    by_cases hprev : Above w thr (n - 1)
    · rw [step_stay (fun hup => absurd hup.2 (not_lt.mpr (le_of_lt hprev)))
        (fun hdown => absurd hdown.1 (not_lt.mpr hcur.le))]
      refine ⟨h.ordered, h.mem_iff_succ (fun hend => hend.2 habove), ?_, ?_⟩
      · intro _
        obtain ⟨a, ha, hopen⟩ := h.isOpen hprev
        exact ⟨a, ha, hopen.succ habove⟩
      · rw [hsucc]
        exact fun hno => absurd habove hno
    · have hbelow : sample w (n - 1) < thr := by
        rcases lt_trichotomy (sample w (n - 1)) thr with hlt | heq | hgt
        · exact hlt
        · exact absurd ⟨heq, habove⟩ hrise
        · exact absurd hgt hprev
      rw [step_rise hcur hbelow]
      refine ⟨h.ordered, h.mem_iff_succ (fun hend => hprev hend.1), ?_, ?_⟩
      · intro _
        exact ⟨n, rfl, open_here habove (Or.inr hprev)⟩
      · rw [hsucc]
        exact fun hno => absurd habove hno

theorem scanInv_scanned (hclear : NoneTouches w thr) {n : Nat} (hn : 0 < n) (hle : n ≤ w.length) :
    ScanInv w thr n (scanned w thr n) := by
  induction n with
  | zero => omega
  | succ n ih =>
      by_cases hzero : n = 0
      · subst hzero
        exact scanInv_start w thr
      · have hpos : 0 < n := by omega
        obtain ⟨hfall, hrise⟩ := hclear (n - 1) (by omega)
        rw [show n - 1 + 1 = n by omega] at hfall hrise
        rw [scanned_succ w thr hpos]
        exact (ih hpos (by omega)).step hfall hrise

/-- Without samples on the threshold next to a pulse the scan finds the pulses. -/
theorem isPulseList_of_noneTouches (hw : w ≠ []) (hclear : NoneTouches w thr) :
    IsPulseList w thr (Calorimeterfa250Converter.crossingTimes w thr) := by
  have hpos : 0 < w.length := List.length_pos_iff.mpr hw
  have hinv := scanInv_scanned hclear hpos (Nat.le_refl _)
  show IsPulseList w thr ((scanned w thr w.length).finish w thr)
  unfold CrossingScan.finish
  by_cases hlast : sample w (w.length - 1) > thr
  · rw [if_pos hlast]
    obtain ⟨a, ha, hopen⟩ := hinv.isOpen hlast
    constructor
    · refine List.pairwise_append.mpr ⟨hinv.ordered, List.pairwise_singleton _ _, ?_⟩
      intro p hp q hq
      obtain ⟨a', b', rfl, hblock, hlt⟩ := (hinv.mem_iff p).mp hp
      have hbefore := hblock.lt_open hlt hopen
      rw [List.mem_singleton.mp hq, ha]
      show (a' : Int) < (a : Int)
      omega
    · intro p
      rw [List.mem_append, List.mem_singleton, hinv.mem_iff, ha]
      constructor
      · rintro (⟨a', b', hp, hblock, _⟩ | hp)
        · exact ⟨a', b', hp, hblock⟩
        · exact ⟨a, w.length, hp, hopen.block⟩
      · rintro ⟨a', b', hp, hblock⟩
        rcases block_iff.mp hblock with hended | ⟨hb, hopen'⟩
        · exact Or.inl ⟨a', b', hp, hended⟩
        · refine Or.inr ?_
          rw [hp, hb, hopen'.unique hopen]
  · rw [if_neg hlast]
    refine ⟨hinv.ordered, ?_⟩
    intro p
    rw [hinv.mem_iff]
    constructor
    · rintro ⟨a, b, hp, hblock, _⟩
      exact ⟨a, b, hp, hblock⟩
    · rintro ⟨a, b, hp, hblock⟩
      rcases block_iff.mp hblock with hended | ⟨_, hopen⟩
      · exact ⟨a, b, hp, hended⟩
      · exact absurd (hopen.holds _ (by have := hopen.lt; omega) (by omega)) hlast

end Invariant

/-! ## When one does -/

section Converse

variable {w : List ℚ} {thr : ℚ}

/-- A pulse is only ever opened at the first sample or after one below the threshold, and only closed at one below
    the threshold. -/
structure CrossingsStrict (w : List ℚ) (thr : ℚ) (s : CrossingScan) : Prop where
  first : ∀ a : Nat, s.first = a → a = 0 ∨ sample w (a - 1) < thr
  opened : ∀ p ∈ s.crossingTimes, ∀ a : Nat, p.1 = a → a = 0 ∨ sample w (a - 1) < thr
  closed : ∀ p ∈ s.crossingTimes, ∀ b : Nat, p.2 = b → sample w b < thr

theorem crossingsStrict_scanned (w : List ℚ) (thr : ℚ) (n : Nat) : CrossingsStrict w thr (scanned w thr n) := by
  induction n with
  | zero =>
      refine ⟨?_, by simp [scanned, loopIndices, CrossingScan.start], by simp [scanned, loopIndices, CrossingScan.start]⟩
      intro a ha
      simp only [scanned, loopIndices, Nat.zero_sub, List.range'_zero, List.foldl_nil, CrossingScan.start] at ha
      split at ha
      · exact Or.inl (by omega)
      · omega
  | succ n ih =>
      by_cases hzero : n = 0
      · subst hzero
        exact ih
      · rw [scanned_succ w thr (by omega)]
        rcases step_cases (scanned w thr n) w thr n with ⟨_, hprev, h⟩ | ⟨hcur, _, _, h⟩ | h
        · rw [h]
          refine ⟨?_, ih.opened, ih.closed⟩
          intro a ha
          have han : n = a := by simpa using ha
          rw [← han]
          exact Or.inr hprev
        · rw [h]
          refine ⟨fun a ha => by simp at ha, ?_, ?_⟩
          · intro p hp a ha
            rcases List.mem_append.mp hp with hp | hp
            · exact ih.opened p hp a ha
            · rw [List.mem_singleton.mp hp] at ha
              exact ih.first a ha
          · intro p hp b hb
            rcases List.mem_append.mp hp with hp | hp
            · exact ih.closed p hp b hb
            · rw [List.mem_singleton.mp hp] at hb
              have hbn : n = b := by simpa using hb
              rw [← hbn]
              exact hcur
        · rw [h]
          exact ih

/-- The pairs of the whole list. -/
theorem crossings_strict {p : Int × Int} (hp : p ∈ Calorimeterfa250Converter.crossingTimes w thr) {a b : Nat}
    (ha : p.1 = a) (hb : p.2 = b) : (a = 0 ∨ sample w (a - 1) < thr) ∧ (b = w.length ∨ sample w b < thr) := by
  have hstrict := crossingsStrict_scanned w thr w.length
  have hp' : p ∈ (scanned w thr w.length).finish w thr := hp
  unfold CrossingScan.finish at hp'
  split at hp'
  · rcases List.mem_append.mp hp' with hp' | hp'
    · exact ⟨hstrict.opened p hp' a ha, Or.inr (hstrict.closed p hp' b hb)⟩
    · rw [List.mem_singleton.mp hp'] at ha hb
      refine ⟨hstrict.first a ha, Or.inl ?_⟩
      have hbw : (w.length : Int) = b := hb
      omega
  · exact ⟨hstrict.opened p hp' a ha, Or.inr (hstrict.closed p hp' b hb)⟩

/-- A pulse with a neighbour on the threshold is missing. -/
theorem noneTouches_of_isPulseList (h : IsPulseList w thr (Calorimeterfa250Converter.crossingTimes w thr)) :
    NoneTouches w thr := by
  intro i hi
  constructor
  · rintro ⟨habove, hon⟩
    -- the pulse that ends at `i + 1`
    obtain ⟨a, hopen, _⟩ := exists_open habove
    have hblock : Block (Above w thr) w.length a (i + 1) :=
      ⟨hopen.lt, by omega, hopen.holds, hopen.left, Or.inr (by unfold Above; rw [hon]; exact lt_irrefl thr)⟩
    have hmem := (h.mem_iff _).mpr ⟨a, i + 1, rfl, hblock⟩
    rcases (crossings_strict hmem rfl rfl).2 with hend | hbelow
    · omega
    · rw [hon] at hbelow
      exact lt_irrefl thr hbelow
  · rintro ⟨hon, habove⟩
    -- the pulse that starts at `i + 1`
    have hleft : ¬ Above w thr i := by
      unfold Above
      rw [hon]
      exact lt_irrefl thr
    obtain ⟨b, hblock, _⟩ := (open_here (a := i + 1) habove (Or.inr hleft)).exists_block (n := w.length) (by omega)
    have hmem := (h.mem_iff _).mpr ⟨i + 1, b, rfl, hblock⟩
    rcases (crossings_strict hmem rfl rfl).1 with hzero | hbelow
    · omega
    · rw [show i + 1 - 1 = i by omega, hon] at hbelow
      exact lt_irrefl thr hbelow

end Converse

/-- **The crossings are exactly the pulses when no sample over the threshold has a neighbour on it**, and only
    then. -/
theorem crossingTimes_iff (w : List ℚ) (hw : w ≠ []) (thr totThr dT : ℚ) :
    (IsPulseList w thr (Calorimeterfa250Converter.crossingTimes w thr) ∧
      IsPulseList w thr (IntVetofa250Converter.crossingTimes w thr totThr dT)) ↔ NoneTouches w thr := by
  rw [crossingTimes_eq]
  constructor
  · intro h
    exact noneTouches_of_isPulseList h.1
  · intro h
    exact ⟨isPulseList_of_noneTouches hw h, isPulseList_of_noneTouches hw h⟩

theorem crossingTimes_onePulse :
    ([0, 9, 0] : List ℚ) ≠ [] ∧
      ((IsPulseList [0, 9, 0] 5 (Calorimeterfa250Converter.crossingTimes [0, 9, 0] 5) ∧
        IsPulseList [0, 9, 0] 5 (IntVetofa250Converter.crossingTimes [0, 9, 0] 5 100 4)) ↔
        NoneTouches [0, 9, 0] 5) :=
  ⟨by simp, crossingTimes_iff [0, 9, 0] (by simp) 5 100 4⟩

/-- The pulse at sample 2 starts from a sample on the threshold: neither scan finds it. -/
theorem touchingPulse_not_found :
    ¬ IsPulseList [0, 5, 9, 0] 5 (Calorimeterfa250Converter.crossingTimes [0, 5, 9, 0] 5) ∧
      ¬ IsPulseList [0, 5, 9, 0] 5 (IntVetofa250Converter.crossingTimes [0, 5, 9, 0] 5 100 4) := by
  rw [crossingTimes_eq, and_self]
  intro h
  have hempty : Calorimeterfa250Converter.crossingTimes [0, 5, 9, 0] 5 = [] := by decide +kernel
  have hpulse : Block (Above [0, 5, 9, 0] 5) 4 2 3 := by
    refine ⟨by omega, by omega, ?_, Or.inr (by unfold Above; decide +kernel), Or.inr (by unfold Above; decide +kernel)⟩
    intro i hi hi'
    rw [show i = 2 by omega]
    unfold Above
    decide +kernel
  have hmem := (h.mem_iff _).mpr ⟨2, 3, rfl, hpulse⟩
  rw [hempty] at hmem
  simp at hmem

end BdxReco
