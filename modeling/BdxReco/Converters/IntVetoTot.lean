import BdxReco.Converters.IntVetoHits

/-!
# `Converters.IntVetoTot` — the time over threshold of the inner veto hits

The loop over the samples keeps the time of the last crossing upwards and that of the last crossing downwards, both
one sample too early, so that the difference is right. Both variables start from 0, and nothing tells a 0 from a
crossing: a waveform that starts over the threshold, or that is still over it at the end, gets a time over threshold
that it does not have (`totMeasured_iff`).

The times are exact first, and then in doubles (`doubleTot`), as they come out and as the amplitudes are corrected with
them.
-/

namespace BdxReco

open Reading Fa250Converter

/-! ## Variables that are set again and again -/

/-- The last of the positions `1, …, n - 1` with a property. -/
def LastIn (P : Nat → Prop) (n i : Nat) : Prop := 0 < i ∧ i < n ∧ P i ∧ ∀ k, i < k → k < n → ¬ P k

/-- None of the positions has it. -/
def NoneIn (P : Nat → Prop) (n : Nat) : Prop := ∀ i, 0 < i → i < n → ¬ P i

section Last

variable {P : Nat → Prop} {n i : Nat}

theorem LastIn.unique {j : Nat} (hi : LastIn P n i) (hj : LastIn P n j) : i = j := by
  rcases Nat.lt_trichotomy i j with hlt | heq | hgt
  · exact absurd hj.2.2.1 (hi.2.2.2 j hlt hj.2.1)
  · exact heq
  · exact absurd hi.2.2.1 (hj.2.2.2 i hgt hi.2.1)

theorem exists_lastIn (h : ∃ i, 0 < i ∧ i < n ∧ P i) : ∃ i, LastIn P n i := by
  induction n with
  | zero =>
      obtain ⟨i, _, hi, _⟩ := h
      omega
  | succ n ih =>
      obtain ⟨i, hpos, hi, hPi⟩ := h
      by_cases hn : 0 < n ∧ P n
      · refine ⟨n, hn.1, by omega, hn.2, ?_⟩
        intro k hk hk'
        omega
      · -- the new position is not one of them, so the last one stays
        have hin : i ≠ n := by
          rintro rfl
          exact hn ⟨hpos, hPi⟩
        obtain ⟨j, hjpos, hj, hPj, hlast⟩ := ih ⟨i, hpos, by omega, hPi⟩
        refine ⟨j, hjpos, by omega, hPj, ?_⟩
        intro k hk hk'
        by_cases hkn : k = n
        · rw [hkn]
          exact fun hPn => hn ⟨by omega, hPn⟩
        · exact hlast k hk (by omega)

theorem lastIn_or_noneIn (P : Nat → Prop) (n : Nat) : (∃ i, LastIn P n i) ∨ NoneIn P n := by
  by_cases h : ∃ i, 0 < i ∧ i < n ∧ P i
  · exact Or.inl (exists_lastIn h)
  · right
    intro i hpos hi hPi
    exact h ⟨i, hpos, hi, hPi⟩

theorem NoneIn.not_lastIn (h : NoneIn P n) : ¬ LastIn P n i := fun hi => h i hi.1 hi.2.1 hi.2.2.1

/-- A variable that a loop sets at every position with a property. -/
def setAt (P : Nat → Prop) [DecidablePred P] (f : Nat → ℚ) (n : Nat) : ℚ :=
  (loopIndices n).foldl (fun x ii => if P ii then f ii else x) 0

variable [DecidablePred P] {f : Nat → ℚ}

theorem setAt_succ (hn : 0 < n) : setAt P f (n + 1) = if P n then f n else setAt P f n := by
  unfold setAt
  rw [loopIndices_succ hn, List.foldl_append]
  rfl

theorem setAt_one : setAt P f 1 = 0 := rfl

/-- In the end it holds what was set last. -/
theorem setAt_of_last (h : LastIn P n i) : setAt P f n = f i := by
  induction n with
  | zero =>
      have hlt := h.2.1
      omega
  | succ n ih =>
      have hn : 0 < n := by
        have hpos := h.1
        have hlt := h.2.1
        omega
      rw [setAt_succ hn]
      by_cases hin : i = n
      · rw [if_pos (hin ▸ h.2.2.1), hin]
      · have hlt := h.2.1
        rw [if_neg (h.2.2.2 n (by omega) (by omega))]
        exact ih ⟨h.1, by omega, h.2.2.1, fun k hk hk' => h.2.2.2 k hk (by omega)⟩

theorem setAt_of_none (h : NoneIn P n) : setAt P f n = 0 := by
  induction n with
  | zero => rfl
  | succ n ih =>
      by_cases hn : 0 < n
      · rw [setAt_succ hn, if_neg (h n hn (by omega))]
        exact ih (fun i hpos hi => h i hpos (by omega))
      · rw [show n = 0 by omega]
        exact setAt_one

end Last

/-! ## Crossings of the second threshold -/

/-- The waveform comes up to the threshold at `i`. -/
def UpCrossing (w : List ℚ) (T : ℚ) (i : Nat) : Prop := sample w (i - 1) < T ∧ T ≤ sample w i

/-- The waveform falls below the threshold at `j`. -/
def DownCrossing (w : List ℚ) (T : ℚ) (j : Nat) : Prop := T ≤ sample w (j - 1) ∧ sample w j < T

instance (w : List ℚ) (T : ℚ) : DecidablePred (UpCrossing w T) := fun _ => inferInstanceAs (Decidable (_ ∧ _))

instance (w : List ℚ) (T : ℚ) : DecidablePred (DownCrossing w T) := fun _ => inferInstanceAs (Decidable (_ ∧ _))

/-- Where the line through the samples `i - 1` and `i` passes the threshold. -/
def crossingPosition (w : List ℚ) (T : ℚ) (i : Nat) : ℚ :=
  ((i : ℚ) - 1) + (T - sample w (i - 1)) / (sample w i - sample w (i - 1))

section Position

variable {w : List ℚ} {T : ℚ} {i j : Nat}

theorem UpCrossing.position (h : UpCrossing w T i) :
    (i : ℚ) - 1 < crossingPosition w T i ∧ crossingPosition w T i ≤ i := by
  have hrise : 0 < sample w i - sample w (i - 1) := by linarith [h.1, h.2]
  have hpos : 0 < (T - sample w (i - 1)) / (sample w i - sample w (i - 1)) := div_pos (by linarith [h.1]) hrise
  have hle : (T - sample w (i - 1)) / (sample w i - sample w (i - 1)) ≤ 1 := by
    rw [div_le_one hrise]
    linarith [h.2]
  unfold crossingPosition
  constructor <;> linarith

theorem DownCrossing.position (h : DownCrossing w T j) :
    (j : ℚ) - 1 ≤ crossingPosition w T j ∧ crossingPosition w T j < j := by
  have hfall : 0 < sample w (j - 1) - sample w j := by linarith [h.1, h.2]
  have hfrac : (T - sample w (j - 1)) / (sample w j - sample w (j - 1))
      = (sample w (j - 1) - T) / (sample w (j - 1) - sample w j) := by
    rw [← neg_sub (sample w (j - 1)) T, ← neg_sub (sample w (j - 1)) (sample w j), neg_div_neg_eq]
  have hnonneg : 0 ≤ (sample w (j - 1) - T) / (sample w (j - 1) - sample w j) :=
    div_nonneg (by linarith [h.1]) hfall.le
  have hlt : (sample w (j - 1) - T) / (sample w (j - 1) - sample w j) < 1 := by
    rw [div_lt_one hfall]
    linarith [h.2]
  unfold crossingPosition
  rw [hfrac]
  constructor <;> linarith

/-- The formula of the loop is one sample early. -/
theorem crossing_shifted (dT : ℚ) (h : sample w i ≠ sample w (i - 1)) :
    ((i : ℚ) - 1 + (T - sample w i) / (sample w i - sample w (i - 1))) * dT
      = dT * (crossingPosition w T i - 1) := by
  have hne : sample w i - sample w (i - 1) ≠ 0 := sub_ne_zero.mpr h
  have hone : (T - sample w (i - 1)) / (sample w i - sample w (i - 1)) - 1
      = (T - sample w i) / (sample w i - sample w (i - 1)) := by
    rw [div_sub_one hne]
    congr 1
    ring
  unfold crossingPosition
  rw [← hone]
  ring

end Position

/-! ## The two variables of the loop -/

section Scan

variable (w : List ℚ) (thr T dT : ℚ)

/-- What the loop computes at a crossing. -/
def loopTime (w : List ℚ) (T dT : ℚ) (ii : Nat) : ℚ :=
  ((ii : ℚ) - 1 + (T - sample w ii) / (sample w ii - sample w (ii - 1))) * dT

theorem totPre_foldl (l : List Nat) (s : IntVetoScan) :
    (l.foldl (IntVetoScan.step w thr T dT) s).totPre =
      l.foldl (fun x ii => if UpCrossing w T ii then loopTime w T dT ii else x) s.totPre := by
  induction l generalizing s with
  | nil => rfl
  | cons ii l ih =>
      rw [List.foldl_cons, List.foldl_cons, ih]
      congr 1
      by_cases h : UpCrossing w T ii
      · rw [if_pos h]
        exact if_pos ⟨h.2, h.1⟩
      · rw [if_neg h]
        exact if_neg (fun h' => h ⟨h'.2, h'.1⟩)

theorem totPost_foldl (l : List Nat) (s : IntVetoScan) :
    (l.foldl (IntVetoScan.step w thr T dT) s).totPost =
      l.foldl (fun x ii => if DownCrossing w T ii then loopTime w T dT ii else x) s.totPost := by
  induction l generalizing s with
  | nil => rfl
  | cons ii l ih =>
      rw [List.foldl_cons, List.foldl_cons, ih]
      congr 1
      by_cases h : DownCrossing w T ii
      · rw [if_pos h]
        exact if_pos ⟨h.2, h.1⟩
      · rw [if_neg h]
        exact if_neg (fun h' => h ⟨h'.2, h'.1⟩)

theorem scan_totPre : (IntVetofa250Converter.scan w thr T dT).totPre = setAt (UpCrossing w T) (loopTime w T dT) w.length :=
  totPre_foldl w thr T dT _ _

theorem scan_totPost :
    (IntVetofa250Converter.scan w thr T dT).totPost = setAt (DownCrossing w T) (loopTime w T dT) w.length :=
  totPost_foldl w thr T dT _ _

end Scan

section Times

variable {w : List ℚ} {thr T dT : ℚ} {i j : Nat}

theorem UpCrossing.ne (h : UpCrossing w T i) : sample w i ≠ sample w (i - 1) := by
  have hlt := lt_of_lt_of_le h.1 h.2
  exact hlt.ne'

theorem DownCrossing.ne (h : DownCrossing w T j) : sample w j ≠ sample w (j - 1) := by
  have hlt := lt_of_lt_of_le h.2 h.1
  exact hlt.ne

theorem scan_totPre_of_last (h : LastIn (UpCrossing w T) w.length i) :
    (IntVetofa250Converter.scan w thr T dT).totPre = dT * (crossingPosition w T i - 1) := by
  rw [scan_totPre, setAt_of_last h]
  exact crossing_shifted dT h.2.2.1.ne

theorem scan_totPost_of_last (h : LastIn (DownCrossing w T) w.length j) :
    (IntVetofa250Converter.scan w thr T dT).totPost = dT * (crossingPosition w T j - 1) := by
  rw [scan_totPost, setAt_of_last h]
  exact crossing_shifted dT h.2.2.1.ne

theorem scan_totPre_of_none (h : NoneIn (UpCrossing w T) w.length) :
    (IntVetofa250Converter.scan w thr T dT).totPre = 0 := by
  rw [scan_totPre, setAt_of_none h]

theorem scan_totPost_of_none (h : NoneIn (DownCrossing w T) w.length) :
    (IntVetofa250Converter.scan w thr T dT).totPost = 0 := by
  rw [scan_totPost, setAt_of_none h]

end Times

/-! ## What the loop measures -/

/-- **A complete interval**: a crossing upwards, a later one downwards, and none upwards after that. -/
def Complete (w : List ℚ) (T : ℚ) : Prop :=
  ∃ i j, 0 < i ∧ i < j ∧ j < w.length ∧ UpCrossing w T i ∧ DownCrossing w T j ∧
    ∀ k, j < k → k < w.length → ¬ UpCrossing w T k

/-- The last complete interval, between the crossings `i` and `j`, if it has a length. -/
structure LastInterval (w : List ℚ) (T : ℚ) (i j : Nat) : Prop where
  complete : Complete w T
  up : LastIn (UpCrossing w T) w.length i
  down : LastIn (DownCrossing w T) w.length j
  pos : crossingPosition w T i < crossingPosition w T j

/-- **The time over threshold of a waveform**, -1 when there is none. -/
structure TotMeasured (w : List ℚ) (T dT : ℚ) (tot : Option ℚ) : Prop where
  interval : ∀ i j, LastInterval w T i j → tot = some (dT * (crossingPosition w T j - crossingPosition w T i))
  otherwise : (∀ i j, ¬ LastInterval w T i j) → tot = some (-1)

/-- **A zero is taken for a crossing**: the waveform only falls below the threshold, after sample 1, or only comes up to
    it, before sample 1. -/
inductive FromZero (w : List ℚ) (T : ℚ) : ℚ → Prop where
  | onlyDown {j : Nat} (none : NoneIn (UpCrossing w T) w.length) (down : LastIn (DownCrossing w T) w.length j)
      (late : 1 < crossingPosition w T j) : FromZero w T (crossingPosition w T j - 1)
  | onlyUp {i : Nat} (none : NoneIn (DownCrossing w T) w.length) (up : LastIn (UpCrossing w T) w.length i)
      (early : crossingPosition w T i < 1) : FromZero w T (1 - crossingPosition w T i)

section Measured

variable {w : List ℚ} {thr T dT : ℚ} {i j : Nat}

/-- The last interval is complete when the last crossing is one downwards. -/
theorem complete_iff (hi : LastIn (UpCrossing w T) w.length i) (hj : LastIn (DownCrossing w T) w.length j) :
    Complete w T ↔ i < j := by
  constructor
  · rintro ⟨i', j', hpos, hlt, hend, _, hdown, hnone⟩
    -- the last crossing downwards is not before the one of the interval, the last one upwards not after it
    have hj' : j' ≤ j := by
      by_contra hgt
      exact hj.2.2.2 j' (by omega) hend hdown
    have hi' : i ≤ j' := by
      by_contra hgt
      exact hnone i (by omega) hi.2.1 hi.2.2.1
    -- no position is a crossing both ways
    have hne : i ≠ j := by
      rintro rfl
      exact absurd hi.2.2.1.1 (not_lt.mpr hj.2.2.1.1)
    omega
  · intro hlt
    exact ⟨i, j, hi.1, hlt, hj.2.1, hi.2.2.1, hj.2.2.1, fun k hk hk' => hi.2.2.2 k (by omega) hk'⟩

/-- The positions of two crossings are in the order of the crossings. -/
theorem crossingPosition_lt_of_lt (hi : UpCrossing w T i) (hj : DownCrossing w T j) (hlt : j < i) :
    crossingPosition w T j < crossingPosition w T i := by
  have hji : (j : ℚ) ≤ (i : ℚ) - 1 := by
    have hle : j + 1 ≤ i := hlt
    have hcast : ((j + 1 : Nat) : ℚ) ≤ (i : ℚ) := by exact_mod_cast hle
    push_cast at hcast
    linarith
  calc crossingPosition w T j < j := hj.position.2
    _ ≤ (i : ℚ) - 1 := hji
    _ < crossingPosition w T i := hi.position.1

theorem lastInterval_iff (hi : LastIn (UpCrossing w T) w.length i) (hj : LastIn (DownCrossing w T) w.length j) :
    LastInterval w T i j ↔ crossingPosition w T i < crossingPosition w T j := by
  constructor
  · exact fun h => h.pos
  · intro hpos
    refine ⟨(complete_iff hi hj).mpr ?_, hi, hj, hpos⟩
    by_contra hge
    have hne : i ≠ j := by
      rintro rfl
      exact lt_irrefl _ hpos
    exact absurd (crossingPosition_lt_of_lt hi.2.2.1 hj.2.2.1 (by omega)) (not_lt.mpr hpos.le)

theorem FromZero.pos {len : ℚ} (h : FromZero w T len) : 0 < len := by
  cases h with
  | onlyDown _ _ late => linarith
  | onlyUp _ _ early => linarith

theorem FromZero.not_lastInterval {len : ℚ} (h : FromZero w T len) : ¬ LastInterval w T i j := by
  intro hint
  cases h with
  | onlyDown hnone _ _ => exact hnone.not_lastIn hint.up
  | onlyUp hnone _ _ => exact hnone.not_lastIn hint.down

theorem FromZero.unique {len len' : ℚ} (h : FromZero w T len) (h' : FromZero w T len') : len = len' := by
  cases h with
  | onlyDown hnone hj _ =>
      cases h' with
      | onlyDown _ hj' _ => rw [hj.unique hj']
      | onlyUp _ hi' _ => exact absurd hi' hnone.not_lastIn
  | onlyUp hnone hi _ =>
      cases h' with
      | onlyDown _ hj' _ => exact absurd hj' hnone.not_lastIn
      | onlyUp _ hi' _ => rw [hi.unique hi']

theorem not_fromZero_of_both (hi : LastIn (UpCrossing w T) w.length i) (hj : LastIn (DownCrossing w T) w.length j)
    (len : ℚ) : ¬ FromZero w T len := by
  intro hzero
  cases hzero with
  | onlyDown hnone _ _ => exact hnone.not_lastIn hi
  | onlyUp hnone _ _ => exact hnone.not_lastIn hj

theorem fromZero_onlyUp (hnone : NoneIn (DownCrossing w T) w.length) (hi : LastIn (UpCrossing w T) w.length i) {len : ℚ}
    (h : FromZero w T len) : crossingPosition w T i < 1 := by
  cases h with
  | onlyDown _ hj _ => exact absurd hj hnone.not_lastIn
  | onlyUp _ hi' early => rwa [hi.unique hi']

theorem fromZero_onlyDown (hnone : NoneIn (UpCrossing w T) w.length) (hj : LastIn (DownCrossing w T) w.length j)
    {len : ℚ} (h : FromZero w T len) : 1 < crossingPosition w T j := by
  cases h with
  | onlyDown _ hj' late => rwa [hj.unique hj']
  | onlyUp _ hi _ => exact absurd hi hnone.not_lastIn

/-- Two times of the loop are compared as the positions of the crossings are. -/
theorem tot_of_positions {s : IntVetoScan} {x y : ℚ} (hdT : 0 < dT) (hpre : s.totPre = dT * (x - 1))
    (hpost : s.totPost = dT * (y - 1)) : s.tot = if x < y then dT * (y - x) else -1 := by
  unfold IntVetoScan.tot
  rw [hpre, hpost]
  by_cases hlt : x < y
  · rw [if_pos hlt, if_pos (mul_lt_mul_of_pos_left (by linarith) hdT)]
    ring
  · rw [if_neg hlt, if_neg (not_lt.mpr (mul_le_mul_of_nonneg_left (by linarith) hdT.le))]

/-- **What the loop leaves**: the last interval, -1, or the distance of a crossing from a zero. -/
theorem scan_tot_cases (w : List ℚ) (thr T : ℚ) (hdT : 0 < dT) :
    (∃ i j, LastInterval w T i j ∧ (IntVetofa250Converter.scan w thr T dT).tot
        = dT * (crossingPosition w T j - crossingPosition w T i)) ∨
    ((∀ i j, ¬ LastInterval w T i j) ∧ (∀ len, ¬ FromZero w T len) ∧
      (IntVetofa250Converter.scan w thr T dT).tot = -1) ∨
    (∃ len, FromZero w T len ∧ (IntVetofa250Converter.scan w thr T dT).tot = dT * len) := by
  -- a variable that has not been set is 0, which is the time of position 1
  have hzero : (0 : ℚ) = dT * (1 - 1) := by ring
  rcases lastIn_or_noneIn (UpCrossing w T) w.length with ⟨i, hi⟩ | hup
  · have hpre : (IntVetofa250Converter.scan w thr T dT).totPre = _ := scan_totPre_of_last hi
    rcases lastIn_or_noneIn (DownCrossing w T) w.length with ⟨j, hj⟩ | hdown
    · -- both have been set, and the shifts cancel
      rw [tot_of_positions hdT hpre (scan_totPost_of_last hj)]
      by_cases hlt : crossingPosition w T i < crossingPosition w T j
      · rw [if_pos hlt]
        exact Or.inl ⟨i, j, (lastInterval_iff hi hj).mpr hlt, rfl⟩
      · rw [if_neg hlt]
        refine Or.inr (Or.inl ⟨?_, not_fromZero_of_both hi hj, rfl⟩)
        intro i' j' hint
        rw [hint.up.unique hi, hint.down.unique hj] at hint
        exact hlt hint.pos
    · -- nothing downwards: the zero is the end
      rw [tot_of_positions hdT hpre ((scan_totPost_of_none hdown).trans hzero)]
      by_cases hlt : crossingPosition w T i < 1
      · rw [if_pos hlt]
        exact Or.inr (Or.inr ⟨_, FromZero.onlyUp hdown hi hlt, rfl⟩)
      · rw [if_neg hlt]
        refine Or.inr (Or.inl ⟨fun i' j' hint => hdown.not_lastIn hint.down, ?_, rfl⟩)
        exact fun len h => hlt (fromZero_onlyUp hdown hi h)
  · have hpre : (IntVetofa250Converter.scan w thr T dT).totPre = _ := (scan_totPre_of_none hup).trans hzero
    rcases lastIn_or_noneIn (DownCrossing w T) w.length with ⟨j, hj⟩ | hdown
    · -- nothing upwards: the zero is the start
      rw [tot_of_positions hdT hpre (scan_totPost_of_last hj)]
      by_cases hlt : 1 < crossingPosition w T j
      · rw [if_pos hlt]
        exact Or.inr (Or.inr ⟨_, FromZero.onlyDown hup hj hlt, rfl⟩)
      · rw [if_neg hlt]
        refine Or.inr (Or.inl ⟨fun i' j' hint => hup.not_lastIn hint.up, ?_, rfl⟩)
        exact fun len h => hlt (fromZero_onlyDown hup hj h)
    · rw [tot_of_positions hdT hpre ((scan_totPost_of_none hdown).trans hzero), if_neg (lt_irrefl 1)]
      refine Or.inr (Or.inl ⟨fun i' j' hint => hup.not_lastIn hint.up, ?_, rfl⟩)
      intro len h
      cases h with
      | onlyDown _ hj _ => exact hdown.not_lastIn hj
      | onlyUp _ hi _ => exact hup.not_lastIn hi

/-- **The time is right exactly when no zero is taken for a crossing.** -/
theorem totMeasured_scan (w : List ℚ) (thr T : ℚ) (hdT : 0 < dT) :
    TotMeasured w T dT (some (IntVetofa250Converter.scan w thr T dT).tot) ↔ ∀ len, ¬ FromZero w T len := by
  rcases scan_tot_cases w thr T hdT with ⟨i, j, hint, htot⟩ | ⟨hnone, hzero, htot⟩ | ⟨len, hzero, htot⟩
  · refine iff_of_true ⟨?_, fun hnone => absurd hint (hnone i j)⟩ (fun len hzero => hzero.not_lastInterval hint)
    intro i' j' hint'
    rw [htot, hint'.up.unique hint.up, hint'.down.unique hint.down]
  · refine iff_of_true ⟨fun i j hint => absurd hint (hnone i j), ?_⟩ hzero
    intro _
    rw [htot]
  · refine iff_of_false ?_ (fun hno => hno len hzero)
    intro h
    -- there is no interval, so -1 is due, but a positive time is published
    have hminus := h.otherwise (fun i j => hzero.not_lastInterval)
    rw [htot, Option.some.injEq] at hminus
    have hpos := mul_pos hdT hzero.pos
    linarith

end Measured

/-! ## In doubles -/

/-- What the loop computes at a crossing, with the operations of doubles. -/
def doubleTime (w : List ℚ) (T dT : ℚ) (ii : Nat) : ℚ :=
  let cur := sample w ii
  let fraction := Binary64.div (Binary64.sub T cur) (Binary64.sub cur (sample w (ii - 1)))
  Binary64.mul (Binary64.add ((ii : ℚ) - 1) fraction) dT

/-- `m_TOT` in doubles, from what the two variables have been set to last. -/
def doubleTot (w : List ℚ) (T dT : ℚ) : ℚ :=
  let totPre := setAt (UpCrossing w T) (doubleTime w T dT) w.length
  let totPost := setAt (DownCrossing w T) (doubleTime w T dT) w.length
  if totPost > totPre then Binary64.sub totPost totPre else -1

/-- The last complete interval, between the crossings `i` and `j`, if it has a length in doubles. -/
structure DoubleInterval (w : List ℚ) (T dT : ℚ) (i j : Nat) : Prop where
  complete : Complete w T
  up : LastIn (UpCrossing w T) w.length i
  down : LastIn (DownCrossing w T) w.length j
  pos : doubleTime w T dT i < doubleTime w T dT j

/-- **A zero is taken for a crossing**, in doubles, and gives a time. -/
inductive DoubleFromZero (w : List ℚ) (T dT : ℚ) : ℚ → Prop where
  | onlyDown {j : Nat} (none : NoneIn (UpCrossing w T) w.length) (down : LastIn (DownCrossing w T) w.length j)
      (late : 0 < doubleTime w T dT j) : DoubleFromZero w T dT (doubleTime w T dT j)
  | onlyUp {i : Nat} (none : NoneIn (DownCrossing w T) w.length) (up : LastIn (UpCrossing w T) w.length i)
      (early : doubleTime w T dT i < 0) : DoubleFromZero w T dT (-doubleTime w T dT i)

section Doubles

variable {w : List ℚ} {T dT : ℚ} {i j : Nat}

theorem isDouble_doubleTime (w : List ℚ) (T dT : ℚ) (ii : Nat) : Binary64.IsDouble (doubleTime w T dT ii) :=
  Binary64.isDouble_round _

/-- The quotient of two doubles of which the second one is the larger, of opposite signs. -/
theorem fraction_bounds_of_nonpos {x y : ℚ} (hx : x ≤ 0) (hle : -x ≤ y) :
    -1 ≤ Binary64.div (Binary64.round x) (Binary64.round y) ∧
      Binary64.div (Binary64.round x) (Binary64.round y) ≤ 0 := by
  have hnum : Binary64.round x ≤ 0 := (Binary64.round_mono hx).trans_eq Binary64.round_zero
  have hden : 0 ≤ Binary64.round y := Binary64.round_nonneg (by linarith)
  have hsmaller : -Binary64.round x ≤ Binary64.round y := by
    rw [← Binary64.round_neg]
    exact Binary64.round_mono hle
  have hlow : -1 ≤ Binary64.round x / Binary64.round y := by
    rcases hden.eq_or_lt with hzero | hpos
    · rw [← hzero, div_zero]
      norm_num
    · rw [le_div_iff₀ hpos]
      linarith
  have hone : Binary64.round (-1) = -1 := by decide +kernel
  constructor
  · exact hone.symm.trans_le (Binary64.round_mono hlow)
  · exact (Binary64.round_mono (div_nonpos_of_nonpos_of_nonneg hnum hden)).trans_eq Binary64.round_zero

theorem fraction_bounds_of_nonneg {x y : ℚ} (hx : 0 ≤ x) (hle : x ≤ -y) :
    -1 ≤ Binary64.div (Binary64.round x) (Binary64.round y) ∧
      Binary64.div (Binary64.round x) (Binary64.round y) ≤ 0 := by
  have hmirror : Binary64.div (Binary64.round x) (Binary64.round y) =
      Binary64.div (Binary64.round (-x)) (Binary64.round (-y)) := by
    unfold Binary64.div
    rw [Binary64.round_neg, Binary64.round_neg, neg_div_neg_eq]
  rw [hmirror]
  exact fraction_bounds_of_nonpos (by linarith) (by linarith)

/-- The time of a crossing is between those of the two samples before it. -/
theorem doubleTime_bounds (hdT : 0 ≤ dT) (h : UpCrossing w T i ∨ DownCrossing w T i) :
    Binary64.mul (Binary64.round ((i : ℚ) - 2)) dT ≤ doubleTime w T dT i ∧
      doubleTime w T dT i ≤ Binary64.mul (Binary64.round ((i : ℚ) - 1)) dT := by
  have hfraction : -1 ≤ Binary64.div (Binary64.sub T (sample w i)) (Binary64.sub (sample w i) (sample w (i - 1))) ∧
      Binary64.div (Binary64.sub T (sample w i)) (Binary64.sub (sample w i) (sample w (i - 1))) ≤ 0 := by
    rcases h with h | h
    · exact fraction_bounds_of_nonpos (by linarith [h.2]) (by linarith [h.1])
    · exact fraction_bounds_of_nonneg (by linarith [h.2]) (by linarith [h.1])
  constructor
  · exact Binary64.round_mono (mul_le_mul_of_nonneg_right (Binary64.round_mono (by linarith [hfraction.1])) hdT)
  · exact Binary64.round_mono (mul_le_mul_of_nonneg_right (Binary64.round_mono (by linarith [hfraction.2])) hdT)

/-- The times of two crossings are in the order of the crossings. -/
theorem doubleTime_le_of_lt (hdT : 0 ≤ dT) (hi : UpCrossing w T i) (hj : DownCrossing w T j) (hlt : j < i) :
    doubleTime w T dT j ≤ doubleTime w T dT i := by
  have hji : (j : ℚ) - 1 ≤ (i : ℚ) - 2 := by
    have hcast : ((j + 1 : Nat) : ℚ) ≤ (i : ℚ) := by exact_mod_cast hlt
    push_cast at hcast
    linarith
  calc doubleTime w T dT j ≤ Binary64.mul (Binary64.round ((j : ℚ) - 1)) dT := (doubleTime_bounds hdT (Or.inr hj)).2
    _ ≤ Binary64.mul (Binary64.round ((i : ℚ) - 2)) dT :=
      Binary64.round_mono (mul_le_mul_of_nonneg_right (Binary64.round_mono hji) hdT)
    _ ≤ doubleTime w T dT i := (doubleTime_bounds hdT (Or.inl hi)).1

theorem doubleInterval_of_lt (hdT : 0 ≤ dT) (hi : LastIn (UpCrossing w T) w.length i)
    (hj : LastIn (DownCrossing w T) w.length j) (hlt : doubleTime w T dT i < doubleTime w T dT j) :
    DoubleInterval w T dT i j := by
  refine ⟨(complete_iff hi hj).mpr ?_, hi, hj, hlt⟩
  by_contra hge
  have hne : i ≠ j := by
    rintro rfl
    exact lt_irrefl _ hlt
  exact absurd (doubleTime_le_of_lt hdT hi.2.2.1 hj.2.2.1 (by omega)) (not_le.mpr hlt)

theorem DoubleFromZero.pos {tot : ℚ} (h : DoubleFromZero w T dT tot) : 0 < tot := by
  cases h with
  | onlyDown _ _ late => exact late
  | onlyUp _ _ early => linarith

theorem DoubleFromZero.not_interval {tot : ℚ} (h : DoubleFromZero w T dT tot) : ¬ DoubleInterval w T dT i j := by
  intro hint
  cases h with
  | onlyDown hnone _ _ => exact hnone.not_lastIn hint.up
  | onlyUp hnone _ _ => exact hnone.not_lastIn hint.down

/-- With a crossing upwards the zero is the end. -/
theorem DoubleFromZero.of_up {tot : ℚ} (h : DoubleFromZero w T dT tot) (hi : LastIn (UpCrossing w T) w.length i) :
    NoneIn (DownCrossing w T) w.length ∧ doubleTime w T dT i < 0 ∧ tot = -doubleTime w T dT i := by
  cases h with
  | onlyDown hnone _ _ => exact absurd hi hnone.not_lastIn
  | onlyUp hnone hi' early =>
      rw [hi.unique hi']
      exact ⟨hnone, early, rfl⟩

/-- With a crossing downwards the zero is the start. -/
theorem DoubleFromZero.of_down {tot : ℚ} (h : DoubleFromZero w T dT tot)
    (hj : LastIn (DownCrossing w T) w.length j) :
    NoneIn (UpCrossing w T) w.length ∧ 0 < doubleTime w T dT j ∧ tot = doubleTime w T dT j := by
  cases h with
  | onlyDown hnone hj' late =>
      rw [hj.unique hj']
      exact ⟨hnone, late, rfl⟩
  | onlyUp hnone _ _ => exact absurd hj hnone.not_lastIn

theorem DoubleFromZero.unique {tot tot' : ℚ} (h : DoubleFromZero w T dT tot) (h' : DoubleFromZero w T dT tot') :
    tot = tot' := by
  cases h with
  | onlyDown _ hj _ => exact (h'.of_down hj).2.2.symm
  | onlyUp _ hi _ => exact (h'.of_up hi).2.2.symm

/-- **What the loop leaves in doubles**: the last interval, -1, or the distance of a crossing from a zero. -/
theorem doubleTot_cases (w : List ℚ) (T : ℚ) (hdT : 0 < dT) :
    (∃ i j, DoubleInterval w T dT i j ∧
      doubleTot w T dT = Binary64.sub (doubleTime w T dT j) (doubleTime w T dT i)) ∨
    ((∀ i j, ¬ DoubleInterval w T dT i j) ∧ (∀ tot, ¬ DoubleFromZero w T dT tot) ∧ doubleTot w T dT = -1) ∨
    DoubleFromZero w T dT (doubleTot w T dT) := by
  unfold doubleTot
  rcases lastIn_or_noneIn (UpCrossing w T) w.length with ⟨i, hi⟩ | hup
  · rcases lastIn_or_noneIn (DownCrossing w T) w.length with ⟨j, hj⟩ | hdown
    · rw [setAt_of_last hi, setAt_of_last hj]
      by_cases hlt : doubleTime w T dT i < doubleTime w T dT j
      · exact Or.inl ⟨i, j, doubleInterval_of_lt hdT.le hi hj hlt, if_pos hlt⟩
      · refine Or.inr (Or.inl ⟨?_, fun tot hzero => (hzero.of_up hi).1.not_lastIn hj, if_neg hlt⟩)
        intro i' j' hint
        rw [hi.unique hint.up, hj.unique hint.down] at hlt
        exact hlt hint.pos
    · -- nothing downwards: the zero is the end
      rw [setAt_of_last hi, setAt_of_none hdown]
      by_cases hlt : doubleTime w T dT i < 0
      · right; right
        have hsub : Binary64.sub 0 (doubleTime w T dT i) = -doubleTime w T dT i := by
          unfold Binary64.sub
          rw [zero_sub, Binary64.round_neg, isDouble_doubleTime]
        simp only
        rw [if_pos hlt, hsub]
        exact .onlyUp hdown hi hlt
      · exact Or.inr (Or.inl ⟨fun i' j' hint => hdown.not_lastIn hint.down,
          fun tot hzero => hlt (hzero.of_up hi).2.1, if_neg hlt⟩)
  · rcases lastIn_or_noneIn (DownCrossing w T) w.length with ⟨j, hj⟩ | hdown
    · -- nothing upwards: the zero is the start
      rw [setAt_of_none hup, setAt_of_last hj]
      by_cases hlt : 0 < doubleTime w T dT j
      · right; right
        have hsub : Binary64.sub (doubleTime w T dT j) 0 = doubleTime w T dT j := by
          unfold Binary64.sub
          rw [sub_zero, isDouble_doubleTime]
        simp only
        rw [if_pos hlt, hsub]
        exact .onlyDown hup hj hlt
      · exact Or.inr (Or.inl ⟨fun i' j' hint => hup.not_lastIn hint.up,
          fun tot hzero => hlt (hzero.of_down hj).2.1, if_neg hlt⟩)
    · rw [setAt_of_none hup, setAt_of_none hdown]
      refine Or.inr (Or.inl ⟨fun i' j' hint => hup.not_lastIn hint.up, ?_, if_neg (lt_irrefl 0)⟩)
      intro tot hzero
      cases hzero with
      | onlyDown _ hj _ => exact hdown.not_lastIn hj
      | onlyUp _ hi _ => exact hup.not_lastIn hi

end Doubles

/-! ## The hit -/

namespace IntVetofa250Converter

/-- `convertMode1Hit`, with the time over threshold in doubles. -/
def convertMode1HitDouble (c : IntVetofa250Converter) (ampl : ℚ) (input : Fa250Mode1CalibPedSubHit) :
    Reading IntVetoWaveformHit := do
  let r ← c.refinePedestal ampl input
  let g := c.setting ampl input
  let w := subtract input.samples r.ped
  g.analyseWith w (doubleTot w g.TOTTHR g.dT) { pedMean := some r.ped, pedRMS := r.pedRMS, RMSflag := r.found }

theorem convertMode1HitDouble_eq {c : IntVetofa250Converter} {ampl : ℚ} {input : Fa250Mode1CalibPedSubHit}
    {r : Refined} (hr : (c.refinePedestal ampl input).value = some r) :
    (c.convertMode1HitDouble ampl input).value =
      ((c.setting ampl input).analyseWith (subtract input.samples r.ped)
        (doubleTot (subtract input.samples r.ped) (c.setting ampl input).TOTTHR (c.setting ampl input).dT)
        { pedMean := some r.ped, pedRMS := r.pedRMS, RMSflag := r.found }).value := by
  unfold convertMode1HitDouble
  rw [value_bind, hr]
  rfl

/-- **Exactly when the time over threshold is that of the last complete interval.** -/
theorem totMeasured_iff (c : IntVetofa250Converter) (ampl : ℚ) (input : Fa250Mode1CalibPedSubHit) (r : Refined)
    (hdT : 0 < input.dT) (hr : (c.refinePedestal ampl input).value = some r) :
    (∃ out, (c.convertMode1Hit ampl input).value = some out ∧
        (out.type = .realSignal →
          TotMeasured (subtract input.samples r.ped) (c.TOTTHR.getD 0) input.dT out.Ttot)) ↔
      input.samples ≠ [] ∧
        ((∃ p, (c.setting ampl input).Accepted (subtract input.samples r.ped) p) →
          ∀ len, ¬ FromZero (subtract input.samples r.ped) (c.TOTTHR.getD 0) len) := by
  rw [convertMode1Hit_eq hr, ← subtract_ne_nil input.samples r.ped, Setting.analyse]
  -- whichever pulse is the highest, the time is the one the loop has left
  have hsignal : ∀ p t h, subtract input.samples r.ped ≠ [] →
      (c.setting ampl input).IsHighest (subtract input.samples r.ped) p t →
      (c.setting ampl input).IsSignal (subtract input.samples r.ped) (scan (subtract input.samples r.ped)
        (c.setting ampl input).thr (c.setting ampl input).TOTTHR (c.setting ampl input).dT).tot t h →
      (TotMeasured (subtract input.samples r.ped) (c.TOTTHR.getD 0) input.dT h.Ttot ↔
        ∀ len, ¬ FromZero (subtract input.samples r.ped) (c.TOTTHR.getD 0) len) := by
    intro p t h _ _ hh
    rw [hh.Ttot]
    exact totMeasured_scan _ _ _ hdT
  rw [Setting.exists_signal_iff hsignal]
  refine and_congr_right (fun hw => ?_)
  constructor
  · rintro hall ⟨p, hp⟩
    obtain ⟨p', t, hhighest⟩ := Setting.exists_isHighest hw hp
    exact hall p' t hhighest
  · intro hall p t hhighest
    exact hall ⟨p, hhighest.accepted⟩

/-- A pulse inside the waveform. -/
def insideHit : Fa250Mode1CalibPedSubHit :=
  vetoHit [0, 0, 0, 0, 150, 140, 0, 0, 0, 0, 0, 0, 0, 0, 0, 0, 0, 0, 0, 0]

theorem totMeasured_inside :
    0 < insideHit.dT ∧ (defaultConverter.refinePedestal 1 insideHit).value = some ⟨true, 0, some 0⟩ ∧
      ((∃ out, (defaultConverter.convertMode1Hit 1 insideHit).value = some out ∧ (out.type = .realSignal →
          TotMeasured (subtract insideHit.samples 0) 100 insideHit.dT out.Ttot)) ↔
        insideHit.samples ≠ [] ∧
          ((∃ p, (defaultConverter.setting 1 insideHit).Accepted (subtract insideHit.samples 0) p) →
            ∀ len, ¬ FromZero (subtract insideHit.samples 0) 100 len)) := by
  have hdT : 0 < insideHit.dT := by decide +kernel
  have hr : (defaultConverter.refinePedestal 1 insideHit).value = some ⟨true, 0, some 0⟩ := by decide +kernel
  exact ⟨hdT, hr, totMeasured_iff defaultConverter 1 insideHit ⟨true, 0, some 0⟩ hdT hr⟩

/-- A waveform that starts over the threshold. -/
def cutHit : Fa250Mode1CalibPedSubHit :=
  vetoHit [150, 140, 130, 120, 0, 0, 0, 0, 0, 0, 0, 0, 0, 0, 0, 0, 0, 0, 0, 0]

/-- It has no crossing upwards, and a time over threshold all the same. -/
theorem tot_without_start :
    ¬ ∀ (c : IntVetofa250Converter) (ampl : ℚ) (input : Fa250Mode1CalibPedSubHit) (r : Refined),
      input.samples ≠ [] → 0 < input.dT → (c.refinePedestal ampl input).value = some r →
      ∃ out, (c.convertMode1Hit ampl input).value = some out ∧ (out.type = .realSignal →
        TotMeasured (subtract input.samples r.ped) (c.TOTTHR.getD 0) input.dT out.Ttot) := by
  intro h
  obtain ⟨out, hvalue, hmeasured⟩ := h defaultConverter 1 cutHit ⟨true, 0, some 0⟩ (by simp [cutHit, vetoHit])
    (by decide +kernel) (by decide +kernel)
  have hrun : (defaultConverter.convertMode1Hit 1 cutHit).value.map (fun out => (out.type, out.Ttot))
      = some (.realSignal, some (26 / 3)) := by decide +kernel
  rw [hvalue, Option.map_some, Option.some.injEq, Prod.mk.injEq] at hrun
  have hnone : ∀ i < (subtract cutHit.samples 0).length, 0 < i → ¬ UpCrossing (subtract cutHit.samples 0) 100 i := by
    decide +kernel
  have hminus := (hmeasured hrun.1).otherwise (fun i j hint => hnone i hint.up.2.1 hint.up.1 hint.up.2.2.1)
  rw [hrun.2, Option.some.injEq] at hminus
  revert hminus
  decide +kernel

end IntVetofa250Converter

end BdxReco
