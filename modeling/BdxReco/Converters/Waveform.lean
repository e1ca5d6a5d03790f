import BdxReco.Converters.Crossings
import BdxReco.DAQ.Event
import BdxReco.Lib.Binary64
import BdxReco.Lib.FirstMax
import BdxReco.Lib.Reading
import Mathlib.Algebra.BigOperators.Group.Finset.Basic
import Mathlib.Algebra.Order.Ring.Int

/-!
# `Converters.Waveform` — sums, maxima and pulses of a waveform

`sumSamples` and `getMaximum` are what `fa250Converter` gives to its subclasses. Both go from `first` to `last`
included, and neither looks at the size of the waveform.

The other half of the module says which pairs stand in `m_crossingTimes` for every waveform, also for one that
touches the threshold (`mem_crossingTimes`).
-/

namespace BdxReco

open Reading FirstMax

/-! ## `fa250Converter` -/

namespace Fa250Converter

/-- `sumSamples(first, last, samples)`. -/
def sumSamples (samples : List ℚ) (first last : Int) : Reading ℚ :=
  loop samples (fun ret _ x => ret + x) 0 (interval first last)

/-- `(int) x` for a `double` that holds an integer. -/
def asInt (x : Int) : Int := Binary64.toInt x

/-- `sumSamples(N, samples)` for the whole waveform. -/
def sumAll (samples : List ℚ) : Reading ℚ := sumSamples samples 0 (samples.length - 1)

/-- `getMaximum(first, last, x, Tmax)`: the maximum and `Tmax`. -/
def getMaximum (x : List ℚ) (first last : Int) : Reading (ℚ × Int) := do
  let max ← get x first
  loop x (fun s ii x => if x > s.1 then (x, ii) else s) (max, first) (interval first last)

/-- `getMaximum(N, x, Tmax)` for the whole waveform. -/
def maximumOfAll (x : List ℚ) : Reading (ℚ × Int) := getMaximum x 0 (x.length - 1)

end Fa250Converter

theorem Fa250Converter.asInt_eq (x : Int) : Fa250Converter.asInt x = if -2 ^ 31 ≤ x ∧ x < 2 ^ 31 then x else -2 ^ 31 :=
  Binary64.toInt_intCast x

/-! ## Sums -/

/-- The samples of the waveform from `lo` to `hi`, summed. -/
def windowSum (w : List ℚ) (lo hi : Int) : ℚ :=
  ∑ i ∈ (Finset.range w.length).filter (fun i : Nat => lo ≤ (i : Int) ∧ (i : Int) ≤ hi), sample w i

/-- The interval lies in the waveform, or is empty. -/
def Fits (w : List ℚ) (first last : Int) : Prop := first ≤ last → 0 ≤ first ∧ last < w.length

section Sums

variable (w : List ℚ) {first last : Int}

theorem nodup_interval (first last : Int) : (interval first last).Nodup := by
  unfold interval Int.range
  refine List.Nodup.map ?_ List.nodup_range
  intro i j hij
  simpa using hij

theorem sum_interval (hfits : Fits w first last) :
    ((interval first last).map (fun i => sample w i.toNat)).sum = windowSum w first last := by
  rw [← List.sum_toFinset _ (nodup_interval first last)]
  unfold windowSum
  refine Finset.sum_bij (fun i _ => i.toNat) ?_ ?_ ?_ ?_
  · intro i hi
    rw [List.mem_toFinset, mem_interval] at hi
    have hbounds := hfits (by omega)
    simp only [Finset.mem_filter, Finset.mem_range]
    omega
  · intro i hi j hj hij
    rw [List.mem_toFinset, mem_interval] at hi hj
    have hbounds := hfits (by omega)
    omega
  · intro i hi
    simp only [Finset.mem_filter, Finset.mem_range] at hi
    refine ⟨(i : Int), ?_, by simp⟩
    rw [List.mem_toFinset, mem_interval]
    exact hi.2
  · intro i _
    rfl

theorem foldl_add_eq_sum (l : List Int) (f : Int → ℚ) (r : ℚ) :
    l.foldl (fun r i => r + f i) r = r + (l.map f).sum := by
  induction l generalizing r with
  | nil => simp
  | cons i l ih => rw [List.foldl_cons, ih, List.map_cons, List.sum_cons, add_assoc]

theorem value_sumSamples (hfits : Fits w first last) :
    (Fa250Converter.sumSamples w first last).value = some (windowSum w first last) := by
  unfold Fa250Converter.sumSamples
  rw [value_loop w _ 0 (forall_interval.mpr hfits), ← sum_interval w hfits, ← zero_add (List.sum _),
    ← foldl_add_eq_sum]
  rfl

theorem value_sumSamples_of_not (hfits : ¬ Fits w first last) :
    (Fa250Converter.sumSamples w first last).value = none :=
  value_loop_of_not w _ (fun h => hfits (forall_interval.mp h)) 0

theorem within_sumSamples :
    (Fa250Converter.sumSamples w first last).Within w.length ↔ Fits w first last := by
  unfold Fa250Converter.sumSamples
  rw [within_loop, forall_interval]
  rfl

theorem fits_all (w : List ℚ) : Fits w 0 (w.length - 1) := by
  intro _
  omega

/-- A window counts for the samples in it. -/
theorem windowSum_congr {lo hi lo' hi' : Int}
    (h : ∀ i : Nat, i < w.length → (lo ≤ (i : Int) ∧ (i : Int) ≤ hi ↔ lo' ≤ (i : Int) ∧ (i : Int) ≤ hi')) :
    windowSum w lo hi = windowSum w lo' hi' := by
  unfold windowSum
  refine congrArg (fun s => Finset.sum s (sample w)) (Finset.filter_congr ?_)
  intro i hi
  exact h i (Finset.mem_range.mp hi)

/-- The window may as well end with the waveform. -/
theorem windowSum_all {last : Int} (hlast : (w.length : Int) - 1 ≤ last) {first : Int} (hfirst : first ≤ 0) :
    windowSum w first last = ∑ i ∈ Finset.range w.length, sample w i := by
  unfold windowSum
  rw [Finset.filter_true_of_mem]
  intro i hi
  have hlt := Finset.mem_range.mp hi
  omega

theorem windowSum_empty {lo hi : Int} (h : hi < lo) : windowSum w lo hi = 0 := by
  unfold windowSum
  rw [Finset.filter_false_of_mem, Finset.sum_empty]
  intro i _
  omega

/-- A window is cut in two. -/
theorem windowSum_split (lo mid hi : Int) (hlo : lo ≤ mid + 1) (hhi : mid ≤ hi) :
    windowSum w lo hi = windowSum w lo mid + windowSum w (mid + 1) hi := by
  unfold windowSum
  rw [← Finset.sum_union]
  · refine congrArg (fun s => Finset.sum s (sample w)) ?_
    ext i
    simp only [Finset.mem_union, Finset.mem_filter, Finset.mem_range]
    omega
  · rw [Finset.disjoint_filter]
    intro i _ h
    omega

theorem value_sumAll (w : List ℚ) :
    (Fa250Converter.sumAll w).value = some (∑ i ∈ Finset.range w.length, sample w i) := by
  unfold Fa250Converter.sumAll
  rw [value_sumSamples w (fits_all w), windowSum_all w (le_refl _) (le_refl _)]

end Sums

/-! ## Maxima -/

/-- `t` is the first place of the maximum over `first, …, last`. -/
structure FirstMaximum (w : List ℚ) (first last t : Int) : Prop where
  ge : first ≤ t
  le : t ≤ last
  le_max : ∀ i, first ≤ i → i ≤ last → sample w i.toNat ≤ sample w t.toNat
  lt_before : ∀ i, first ≤ i → i < t → sample w i.toNat < sample w t.toNat

section Maxima

variable {w : List ℚ} {first last t : Int}

theorem FirstMaximum.unique {u : Int} (h : FirstMaximum w first last t) (h' : FirstMaximum w first last u) : t = u := by
  rcases lt_trichotomy t u with hlt | heq | hgt
  · exact absurd (h'.lt_before t h.ge hlt) (not_lt.mpr (h.le_max u h'.ge h'.le))
  · exact heq
  · exact absurd (h.lt_before u h'.ge hgt) (not_lt.mpr (h'.le_max t h.ge h.le))

theorem pairwise_interval (first last : Int) : (interval first last).Pairwise (· < ·) := by
  unfold interval Int.range
  rw [List.pairwise_map]
  refine List.pairwise_lt_range.imp ?_
  intro i j hij
  omega

/-- What the loop of `getMaximum` computes inside the waveform. -/
theorem firstMaximum_scan (w : List ℚ) (hle : first ≤ last) :
    ∃ t, FirstMaximum w first last t ∧
      scan (fun i => sample w i.toNat) id (sample w first.toNat, first) (interval first last)
        = (sample w t.toNat, t) := by
  have hfirst : first ∈ interval first last := mem_interval.mpr ⟨le_refl _, hle⟩
  rcases scan_cases (fun a b hab => not_lt.mpr hab.le) (fun i => sample w i.toNat) id (sample w first.toNat, first)
    (pairwise_interval first last) with ⟨hstay, hmax⟩ | ⟨t, ht, _, hstop, hmax⟩
  · refine ⟨first, ⟨le_refl _, hle, ?_, ?_⟩, hstay⟩
    · intro i hi hi'
      exact hmax i (mem_interval.mpr ⟨hi, hi'⟩)
    · intro i hi hlt
      omega
  · obtain ⟨hge, hle'⟩ := mem_interval.mp ht
    refine ⟨t, ⟨hge, hle', ?_, ?_⟩, hstop⟩
    · intro i hi hi'
      exact (hmax i (mem_interval.mpr ⟨hi, hi'⟩)).1
    · intro i hi hlt
      exact (hmax i (mem_interval.mpr ⟨hi, by omega⟩)).2 hlt

theorem exists_firstMaximum (w : List ℚ) (hle : first ≤ last) : ∃ t, FirstMaximum w first last t := by
  obtain ⟨t, ht, _⟩ := firstMaximum_scan w hle
  exact ⟨t, ht⟩

/-- **`getMaximum` inside the waveform** finds the maximum where it is first reached. -/
theorem value_getMaximum (h : FirstMaximum w first last t) (hge : 0 ≤ first) (hlt : last < w.length) :
    (Fa250Converter.getMaximum w first last).value = some (sample w t.toNat, t) := by
  have hle : first ≤ last := le_trans h.ge h.le
  have hbounds : ∀ i ∈ interval first last, InBounds w.length i := forall_interval.mpr (fun _ => ⟨hge, hlt⟩)
  obtain ⟨u, hu, hscan⟩ := firstMaximum_scan w hle
  unfold Fa250Converter.getMaximum
  rw [value_bind, value_get (hbounds first (mem_interval.mpr ⟨le_refl _, hle⟩)) 0]
  show (loop w _ (sample w first.toNat, first) (interval first last)).value = _
  rw [value_loop w _ 0 hbounds, h.unique hu, ← hscan]
  rfl

theorem value_getMaximum_of_not (hle : first ≤ last) (h : ¬ (0 ≤ first ∧ last < w.length)) :
    (Fa250Converter.getMaximum w first last).value = none := by
  have hbounds : ¬ ∀ i ∈ interval first last, InBounds w.length i := fun hall => h (forall_interval.mp hall hle)
  unfold Fa250Converter.getMaximum
  rw [value_bind]
  cases (get w first).value with
  | none => rfl
  | some max => exact value_loop_of_not w _ hbounds _

theorem within_getMaximum (hle : first ≤ last) :
    (Fa250Converter.getMaximum w first last).Within w.length ↔ 0 ≤ first ∧ last < w.length := by
  unfold Fa250Converter.getMaximum
  rw [within_bind, within_get]
  constructor
  · rintro ⟨hfirst, hloop⟩
    have hrest := hloop _ (value_get hfirst 0)
    rw [within_loop, forall_interval] at hrest
    exact hrest hle
  · rintro ⟨hge, hlt⟩
    refine ⟨⟨hge, by omega⟩, ?_⟩
    intro max _
    rw [within_loop, forall_interval]
    exact fun _ => ⟨hge, hlt⟩

theorem within_maximumOfAll (hw : w ≠ []) : (Fa250Converter.maximumOfAll w).Within w.length := by
  have hpos := List.length_pos_iff.mpr hw
  unfold Fa250Converter.maximumOfAll
  rw [within_getMaximum (by omega)]
  omega

theorem value_maximumOfAll (hw : w ≠ []) :
    ∃ u, FirstMaximum w 0 (w.length - 1) u ∧ (Fa250Converter.maximumOfAll w).value = some (sample w u.toNat, u) := by
  have hpos := List.length_pos_iff.mpr hw
  have hle : (0 : Int) ≤ w.length - 1 := by omega
  obtain ⟨u, hu⟩ := exists_firstMaximum w hle
  exact ⟨u, hu, value_getMaximum hu (le_refl _) (by omega)⟩

/-- A sample that is not over all others may be left out at the end. -/
theorem firstMaximum_drop_last (hle : first < last) (hlast : sample w last.toNat < sample w first.toNat) :
    FirstMaximum w first last t ↔ FirstMaximum w first (last - 1) t := by
  constructor
  · intro h
    -- the last sample is below the first one, so the maximum is not there
    have hne : t ≠ last := by
      intro heq
      have hmax := h.le_max first (le_refl _) hle.le
      rw [heq] at hmax
      exact absurd hlast (not_lt.mpr hmax)
    have hle' := h.le
    exact ⟨h.ge, by omega, fun i hi hi' => h.le_max i hi (by omega), h.lt_before⟩
  · intro h
    have hle' := h.le
    refine ⟨h.ge, by omega, ?_, h.lt_before⟩
    intro i hi hi'
    by_cases heq : i = last
    · rw [heq]
      exact le_trans hlast.le (h.le_max first (le_refl _) (by omega))
    · exact h.le_max i hi (by omega)

end Maxima

/-! ## The pairs of `m_crossingTimes` -/

/-- The samples that the scan for crossings reads. -/
def scanReads (size : Nat) : List Int :=
  0 :: (loopIndices size).flatMap (fun ii : Nat => [(ii : Int), (ii : Int) - 1]) ++ [(size : Int) - 1]

theorem scanReads_inBounds {size : Nat} (hsize : 0 < size) : ∀ i ∈ scanReads size, InBounds size i := by
  intro i hi
  unfold InBounds
  unfold scanReads loopIndices at hi
  simp only [List.cons_append, List.mem_cons, List.mem_append, List.mem_flatMap, List.not_mem_nil, or_false] at hi
  rcases hi with hi | ⟨ii, hii, hi⟩ | hi
  · omega
  · have hrange := List.mem_range'_1.mp hii
    omega
  · omega


/-- The waveform comes over the threshold at `a`, from strictly below it or from the start. -/
def Opens (w : List ℚ) (thr : ℚ) (a : Nat) : Prop := (a = 0 ∨ sample w (a - 1) < thr) ∧ sample w a > thr

/-- The waveform goes from strictly over the threshold to strictly below it at `b`. -/
def Closes (w : List ℚ) (thr : ℚ) (b : Nat) : Prop := sample w b < thr ∧ sample w (b - 1) > thr

/-- Opened at `a`, and since then neither opened again nor closed before `n`. -/
structure StillOpen (w : List ℚ) (thr : ℚ) (n a : Nat) : Prop where
  lt : a < n
  opens : Opens w thr a
  since : ∀ i, a < i → i < n → ¬ Opens w thr i ∧ ¬ Closes w thr i

/-- **The pulses of a waveform as its converter sees them.** A pulse that is open at the end of the waveform ends
    there. If the last sample is over the threshold and no pulse is open, because the waveform came up through a sample
    on the threshold, there is a pulse without a start. -/
inductive Crossing (w : List ℚ) (thr : ℚ) : Int × Int → Prop where
  | closed {a b : Nat} : b < w.length → Closes w thr b → StillOpen w thr b a → Crossing w thr ((a : Int), (b : Int))
  | atEnd {a : Nat} : Above w thr (w.length - 1) → StillOpen w thr w.length a →
      Crossing w thr ((a : Int), (w.length : Int))
  | unopened : Above w thr (w.length - 1) → (∀ a, ¬ StillOpen w thr w.length a) →
      Crossing w thr (-1, (w.length : Int))

section Scanned

variable {w : List ℚ} {thr : ℚ}

theorem StillOpen.unique {n a a' : Nat} (h : StillOpen w thr n a) (h' : StillOpen w thr n a') : a = a' := by
  rcases Nat.lt_trichotomy a a' with hlt | heq | hgt
  · exact absurd h'.opens (h.since a' hlt h'.lt).1
  · exact heq
  · exact absurd h.opens (h'.since a hgt h.lt).1

/-- `first` says which pulse is open. -/
def FirstIs (w : List ℚ) (thr : ℚ) (n : Nat) (s : CrossingScan) : Prop :=
  (∃ a : Nat, s.first = a ∧ StillOpen w thr n a) ∨ (s.first = -1 ∧ ∀ a, ¬ StillOpen w thr n a)

/-- **The invariant of the scan for every waveform**: the pulses that have been closed before `n`, in their order, and
    the one that is open. -/
structure Scanned (w : List ℚ) (thr : ℚ) (n : Nat) (s : CrossingScan) : Prop where
  ordered : s.crossingTimes.Pairwise (fun p q => p.2 < q.2)
  mem_iff : ∀ p, p ∈ s.crossingTimes ↔
    ∃ a b : Nat, p = ((a : Int), (b : Int)) ∧ b < n ∧ Closes w thr b ∧ StillOpen w thr b a
  firstIs : FirstIs w thr n s

theorem scanned_start (w : List ℚ) (thr : ℚ) : Scanned w thr 1 (CrossingScan.start w thr) where
  ordered := List.Pairwise.nil
  mem_iff p := by
    constructor
    · intro h
      simp [CrossingScan.start] at h
    · rintro ⟨a, b, _, hb, _, hopen⟩
      have hlt := hopen.lt
      omega
  firstIs := by
    by_cases habove : sample w 0 > thr
    · refine Or.inl ⟨0, by simp [CrossingScan.start, habove], by omega, ⟨Or.inl rfl, habove⟩, ?_⟩
      intro i hi hi'
      omega
    · refine Or.inr ⟨by simp [CrossingScan.start, habove], ?_⟩
      intro a hopen
      have hzero : a = 0 := by
        have hlt := hopen.lt
        omega
      exact habove (hzero ▸ hopen.opens.2)

theorem opens_iff_of_pos {n : Nat} (hn : 0 < n) :
    Opens w thr n ↔ sample w n > thr ∧ sample w (n - 1) < thr := by
  unfold Opens
  constructor
  · rintro ⟨hzero | hbelow, habove⟩
    · omega
    · exact ⟨habove, hbelow⟩
  · rintro ⟨habove, hbelow⟩
    exact ⟨Or.inr hbelow, habove⟩

theorem not_opens_of_closes {n : Nat} (h : Closes w thr n) : ¬ Opens w thr n :=
  fun hopens => absurd h.1 (not_lt.mpr (le_of_lt hopens.2))

/-- A sample that neither opens nor closes changes nothing. -/
theorem stillOpen_succ_iff {n a : Nat} (hopens : ¬ Opens w thr n) (hcloses : ¬ Closes w thr n) :
    StillOpen w thr (n + 1) a ↔ StillOpen w thr n a := by
  constructor
  · intro h
    have hne : a ≠ n := by
      intro heq
      exact hopens (heq ▸ h.opens)
    have hlt := h.lt
    exact ⟨by omega, h.opens, fun i hi hi' => h.since i hi (by omega)⟩
  · intro h
    refine ⟨Nat.lt_succ_of_lt h.lt, h.opens, ?_⟩
    intro i hi hi'
    by_cases heq : i = n
    · rw [heq]
      exact ⟨hopens, hcloses⟩
    · exact h.since i hi (by omega)

theorem not_stillOpen_of_closes {n a : Nat} (h : Closes w thr n) : ¬ StillOpen w thr (n + 1) a := by
  intro hopen
  by_cases heq : a = n
  · exact not_opens_of_closes h (heq ▸ hopen.opens)
  · have hlt := hopen.lt
    exact (hopen.since n (by omega) (by omega)).2 h

/-- When nothing closes at `n`, the list of closed pulses stays. -/
theorem Scanned.mem_iff_succ {n : Nat} {s : CrossingScan} (h : Scanned w thr n s)
    (hnone : ∀ a, Closes w thr n → ¬ StillOpen w thr n a) (p : Int × Int) :
    p ∈ s.crossingTimes ↔
      ∃ a b : Nat, p = ((a : Int), (b : Int)) ∧ b < n + 1 ∧ Closes w thr b ∧ StillOpen w thr b a := by
  rw [h.mem_iff]
  constructor
  · rintro ⟨a, b, hp, hb, hrest⟩
    exact ⟨a, b, hp, by omega, hrest⟩
  · rintro ⟨a, b, hp, hb, hcloses, hopen⟩
    have hne : b ≠ n := by
      intro heq
      rw [heq] at hcloses hopen
      exact hnone a hcloses hopen
    exact ⟨a, b, hp, by omega, hcloses, hopen⟩

/-- **One pass keeps the invariant.** -/
theorem Scanned.step {n : Nat} (hn : 0 < n) {s : CrossingScan} (h : Scanned w thr n s) :
    Scanned w thr (n + 1) (s.step w thr n) := by
  by_cases hopens : Opens w thr n
  · -- a pulse opens, whether or not one was open
    have hrise := (opens_iff_of_pos hn).mp hopens
    rw [step_rise hrise.1 hrise.2]
    refine ⟨h.ordered, h.mem_iff_succ (fun a hcloses => absurd hopens (not_opens_of_closes hcloses)), Or.inl ?_⟩
    refine ⟨n, rfl, by omega, hopens, ?_⟩
    intro i hi hi'
    omega
  · by_cases hcloses : Closes w thr n
    · rcases h.firstIs with ⟨a, ha, hopen⟩ | ⟨hfirst, hnone⟩
      · -- the open pulse ends
        rw [step_fall hcloses.1 hcloses.2 (by rw [ha]; omega)]
        refine ⟨?_, ?_, Or.inr ⟨rfl, fun a' => not_stillOpen_of_closes hcloses⟩⟩
        · refine List.pairwise_append.mpr ⟨h.ordered, List.pairwise_singleton _ _, ?_⟩
          intro p hp q hq
          obtain ⟨a', b', rfl, hb', _⟩ := (h.mem_iff p).mp hp
          rw [List.mem_singleton.mp hq]
          show (b' : Int) < (n : Int)
          omega
        · intro p
          rw [List.mem_append, List.mem_singleton, h.mem_iff, ha]
          constructor
          · rintro (⟨a', b', hp, hb', hrest⟩ | hp)
            · exact ⟨a', b', hp, by omega, hrest⟩
            · exact ⟨a, n, hp, by omega, hcloses, hopen⟩
          · rintro ⟨a', b', hp, hb', hcloses', hopen'⟩
            by_cases heq : b' = n
            · subst heq
              rw [hopen'.unique hopen] at hp
              exact Or.inr hp
            · exact Or.inl ⟨a', b', hp, by omega, hcloses', hopen'⟩
      · -- no pulse is open: the fall is not noticed
        rw [step_stay (fun hrise => hopens ((opens_iff_of_pos hn).mpr hrise)) (fun hfall => hfall.2.2 hfirst)]
        exact ⟨h.ordered, h.mem_iff_succ (fun a _ => hnone a), Or.inr ⟨hfirst, fun a => not_stillOpen_of_closes hcloses⟩⟩
    · rw [step_stay (fun hrise => hopens ((opens_iff_of_pos hn).mpr hrise)) (fun hfall => hcloses ⟨hfall.1, hfall.2.1⟩)]
      refine ⟨h.ordered, h.mem_iff_succ (fun a hc => absurd hc hcloses), ?_⟩
      unfold FirstIs
      simp only [stillOpen_succ_iff hopens hcloses]
      exact h.firstIs

theorem scanned_scanned (w : List ℚ) (thr : ℚ) {n : Nat} (hn : 0 < n) : Scanned w thr n (scanned w thr n) := by
  induction n with
  | zero => omega
  | succ n ih =>
      by_cases hzero : n = 0
      · subst hzero
        exact scanned_start w thr
      · rw [scanned_succ w thr (by omega)]
        exact (ih (by omega)).step (by omega)

end Scanned

section Crossings

variable {w : List ℚ} {thr : ℚ}

/-- What the end of `convertMode1Hit`'s scan adds. -/
theorem crossingTimes_cases (hw : w ≠ []) (thr : ℚ) :
    ∃ s, Scanned w thr w.length s ∧
      Calorimeterfa250Converter.crossingTimes w thr =
        if sample w (w.length - 1) > thr then s.crossingTimes ++ [(s.first, (w.length : Int))] else s.crossingTimes :=
  ⟨scanned w thr w.length, scanned_scanned w thr (List.length_pos_iff.mpr hw), rfl⟩

theorem crossing_iff {s : CrossingScan} (h : Scanned w thr w.length s) (p : Int × Int) :
    Crossing w thr p ↔
      p ∈ s.crossingTimes ∨ (Above w thr (w.length - 1) ∧ p = (s.first, (w.length : Int))) := by
  constructor
  · intro hp
    cases hp with
    | closed hb hcloses hopen => exact Or.inl ((h.mem_iff _).mpr ⟨_, _, rfl, hb, hcloses, hopen⟩)
    | atEnd hlast hopen =>
        refine Or.inr ⟨hlast, ?_⟩
        rcases h.firstIs with ⟨a', ha', hopen'⟩ | ⟨_, hnone⟩
        · rw [ha', hopen'.unique hopen]
        · exact absurd hopen (hnone _)
    -- over the threshold at the end, but never opened: `first` is -1
    | unopened hlast hnone =>
        refine Or.inr ⟨hlast, ?_⟩
        rcases h.firstIs with ⟨a', _, hopen'⟩ | ⟨hfirst, _⟩
        · exact absurd hopen' (hnone a')
        · rw [hfirst]
  · rintro (hp | ⟨hlast, rfl⟩)
    · obtain ⟨a, b, rfl, hb, hcloses, hopen⟩ := (h.mem_iff p).mp hp
      exact Crossing.closed hb hcloses hopen
    · rcases h.firstIs with ⟨a, ha, hopen⟩ | ⟨hfirst, hnone⟩
      · rw [ha]
        exact Crossing.atEnd hlast hopen
      · rw [hfirst]
        exact Crossing.unopened hlast hnone

/-- **The pairs of `m_crossingTimes` are the pulses.** -/
theorem mem_crossingTimes (hw : w ≠ []) (thr : ℚ) (p : Int × Int) :
    p ∈ Calorimeterfa250Converter.crossingTimes w thr ↔ Crossing w thr p := by
  obtain ⟨s, hs, htimes⟩ := crossingTimes_cases hw thr
  rw [htimes, crossing_iff hs]
  unfold Above
  by_cases hlast : sample w (w.length - 1) > thr
  · rw [if_pos hlast]
    simp [hlast]
  · rw [if_neg hlast]
    simp [hlast]

/-- They are listed by their ends. -/
theorem crossingTimes_ordered (hw : w ≠ []) (thr : ℚ) :
    (Calorimeterfa250Converter.crossingTimes w thr).Pairwise (fun p q => p.2 < q.2) := by
  obtain ⟨s, hs, htimes⟩ := crossingTimes_cases hw thr
  rw [htimes]
  split
  · refine List.pairwise_append.mpr ⟨hs.ordered, List.pairwise_singleton _ _, ?_⟩
    intro p hp q hq
    obtain ⟨a, b, rfl, hb, _⟩ := (hs.mem_iff p).mp hp
    rw [List.mem_singleton.mp hq]
    show (b : Int) < (w.length : Int)
    omega
  · exact hs.ordered

namespace Crossing

variable {p q : Int × Int}

theorem lt (h : Crossing w thr p) : p.1 < p.2 := by
  cases h with
  | closed _ _ hopen =>
      have hlt := hopen.lt
      show (_ : Int) < (_ : Int)
      omega
  | atEnd _ hopen =>
      have hlt := hopen.lt
      show (_ : Int) < (_ : Int)
      omega
  | unopened _ _ =>
      show (-1 : Int) < (_ : Int)
      omega

theorem le (h : Crossing w thr p) : p.2 ≤ w.length := by
  cases h with
  | closed hb _ _ =>
      show (_ : Int) ≤ (_ : Int)
      omega
  | atEnd _ _ => exact le_refl _
  | unopened _ _ => exact le_refl _

theorem ge (h : Crossing w thr p) : -1 ≤ p.1 := by
  cases h with
  | closed _ _ _ =>
      show (_ : Int) ≤ (_ : Int)
      omega
  | atEnd _ _ =>
      show (_ : Int) ≤ (_ : Int)
      omega
  | unopened _ _ => exact le_refl _

/-- A pulse that ends before the waveform does was opened and is closed. -/
theorem closed_of_lt (h : Crossing w thr p) (hlt : p.2 < w.length) :
    ∃ a b : Nat, p = ((a : Int), (b : Int)) ∧ b < w.length ∧ Closes w thr b ∧ StillOpen w thr b a := by
  cases h with
  | closed hb hcloses hopen => exact ⟨_, _, rfl, hb, hcloses, hopen⟩
  | atEnd _ _ => exact absurd hlt (lt_irrefl _)
  | unopened _ _ => exact absurd hlt (lt_irrefl _)

theorem nonneg_of_lt (h : Crossing w thr p) (hlt : p.2 < w.length) : 0 ≤ p.1 := by
  obtain ⟨a, b, rfl, _⟩ := h.closed_of_lt hlt
  show (0 : Int) ≤ (a : Int)
  omega

theorem opens (h : Crossing w thr p) (hge : 0 ≤ p.1) : ∃ a : Nat, p.1 = a ∧ a < w.length ∧ Opens w thr a := by
  cases h with
  | @closed a b hb _ hopen =>
      have hlt := hopen.lt
      exact ⟨a, rfl, by omega, hopen.opens⟩
  | @atEnd a _ hopen => exact ⟨a, rfl, hopen.lt, hopen.opens⟩
  | unopened _ _ =>
      have hneg : (0 : Int) ≤ -1 := hge
      omega

/-- Pulses follow each other: one is over before the next is opened. -/
theorem lt_of_lt (hp : Crossing w thr p) (hq : Crossing w thr q) (hlt : p.2 < q.2) (hge : 0 ≤ q.1) : p.2 < q.1 := by
  obtain ⟨a, b, rfl, hb, hcloses, hopen⟩ := hp.closed_of_lt (lt_of_lt_of_le hlt hq.le)
  -- what is open after `b` has been opened after `b`, for nothing stays open over a close
  have hafter : ∀ a' n : Nat, StillOpen w thr n a' → b < n → b < a' := by
    intro a' n hopen' hn
    rcases Nat.lt_trichotomy a' b with hab | heq | hgt
    · exact absurd hcloses (hopen'.since b hab hn).2
    · exact absurd (heq ▸ hopen'.opens) (not_opens_of_closes hcloses)
    · exact hgt
  cases hq with
  | @closed a' b' hb' hcloses' hopen' =>
      have hbb : (b : Int) < (b' : Int) := hlt
      have hba := hafter a' b' hopen' (by omega)
      show (b : Int) < (a' : Int)
      omega
  | @atEnd a' _ hopen' =>
      have hba := hafter a' _ hopen' hb
      show (b : Int) < (a' : Int)
      omega
  | unopened _ _ =>
      have hneg : (0 : Int) ≤ -1 := hge
      omega

/-- An empty waveform has at most one pulse. -/
theorem eq_of_nil (h : Crossing [] thr p) : p = (-1, 0) := by
  cases h with
  | closed hb _ _ => exact absurd hb (Nat.not_lt_zero _)
  | atEnd _ hopen => exact absurd hopen.lt (Nat.not_lt_zero _)
  | unopened _ _ => rfl

/-- Its end tells a pulse from the others. -/
theorem eq_of_end (hp : Crossing w thr p) (hq : Crossing w thr q) (hend : p.2 = q.2) (hw : w ≠ []) : p = q := by
  have hp' := (mem_crossingTimes hw thr p).mpr hp
  have hq' := (mem_crossingTimes hw thr q).mpr hq
  have hends : (Calorimeterfa250Converter.crossingTimes w thr).Pairwise (fun p q => p.2 ≠ q.2) :=
    (crossingTimes_ordered hw thr).imp ne_of_lt
  have hsymm : Std.Symm (fun p q : Int × Int => p.2 ≠ q.2) := ⟨fun _ _ h => h.symm⟩
  by_contra hne
  exact hends.forall hp' hq' hne hend

end Crossing

/-- The first place of the maximum of a pulse. -/
def Peak (w : List ℚ) (p : Int × Int) (t : Int) : Prop := FirstMaximum w p.1 (p.2 - 1) t

namespace Crossing

variable {p : Int × Int} {t : Int}

theorem exists_peak (h : Crossing w thr p) : ∃ t, Peak w p t := by
  have hlt := h.lt
  exact exists_firstMaximum w (by omega)

/-- The sample after a pulse does not change its maximum. -/
theorem peak_iff (h : Crossing w thr p) (hlt : p.2 < w.length) : FirstMaximum w p.1 p.2 t ↔ Peak w p t := by
  obtain ⟨a, b, rfl, hb, hcloses, hopen⟩ := h.closed_of_lt hlt
  refine firstMaximum_drop_last ?_ ?_
  · have hab := hopen.lt
    show (a : Int) < (b : Int)
    omega
  · exact lt_trans hcloses.1 hopen.opens.2

end Crossing

end Crossings

/-! ## Pedestals -/

/-- The mean of some samples and their RMS, which may be the root of a negative number. -/
structure Pedestal where
  mean : ℚ
  rms : Option ℚ
  deriving DecidableEq, Repr

/-- The body of the pedestal loops: the sum of the samples, and that of their squares. -/
def addToSums (s : ℚ × ℚ) (x : ℚ) : ℚ × ℚ := (Binary64.add s.1 x, Binary64.add s.2 (Binary64.mul x x))

/-- What follows the loops: division by the number of samples, and the root. -/
def pedestalOf (sums : ℚ × ℚ) (n : Int) : Pedestal where
  mean := Binary64.div sums.1 n
  rms := Binary64.sqrt (Binary64.sub (Binary64.div sums.2 n)
    (Binary64.mul (Binary64.div sums.1 n) (Binary64.div sums.1 n)))

/-- The pedestal loops: `n` samples from `start` on. Without samples the mean is `0 / 0`, which is not a number: the
    inner `none`. -/
def pedestal (samples : List ℚ) (start n : Int) : Reading (Option Pedestal) := do
  let sums ← loop samples (fun s _ x => addToSums s x) ((0 : ℚ), (0 : ℚ)) (interval start (start + n - 1))
  pure (if n = 0 then none else some (pedestalOf sums n))

/-- `pedRMS <= cut`, which is false for a value that is not a number. -/
def rmsAtMost (rms : Option ℚ) (cut : ℚ) : Bool :=
  match rms with
  | none => false
  | some rms => decide (rms ≤ cut)

theorem rmsAtMost_iff {rms : Option ℚ} {cut : ℚ} : rmsAtMost rms cut = true ↔ ∃ x, rms = some x ∧ x ≤ cut := by
  unfold rmsAtMost
  cases rms with
  | none => simp
  | some x => simp

/-- A parameter in ns as a number of samples: `(int) (parm / dT)`. -/
def inSamples (parm : Int) (dT : ℚ) : Int :=
  -- infinity and 0 / 0 do not fit into an `int`
  if dT = 0 then -2 ^ 31 else Binary64.toInt (Binary64.div parm dT)

/-- A waveform less its pedestal. -/
def subtract (samples : List ℚ) (ped : ℚ) : List ℚ := samples.map (fun x => Binary64.sub x ped)

/-- The pedestal of the `n` samples from `start` on. -/
def pedestalFrom (samples : List ℚ) (start n : Int) : Pedestal :=
  pedestalOf ((interval start (start + n - 1)).foldl (fun s i => addToSums s (sample samples i.toNat)) (0, 0)) n

section Pedestals

variable {samples : List ℚ} {start n : Int}

/-- The pedestal of samples that exist. -/
theorem value_pedestal (hfits : Fits samples start (start + n - 1)) (hn : n ≠ 0) :
    (pedestal samples start n).value = some (some (pedestalFrom samples start n)) := by
  unfold pedestal
  rw [value_bind, value_loop samples _ 0 (forall_interval.mpr hfits), Option.bind_some, if_neg hn]
  rfl

theorem value_pedestal_zero (samples : List ℚ) (start : Int) : (pedestal samples start 0).value = some none := by
  have hfits : Fits samples start (start + 0 - 1) := by
    intro hle
    omega
  unfold pedestal
  rw [value_bind, value_loop samples _ 0 (forall_interval.mpr hfits)]
  rfl

theorem value_pedestal_of_not (hfits : ¬ Fits samples start (start + n - 1)) : (pedestal samples start n).value = none := by
  unfold pedestal
  rw [value_bind, value_loop_of_not samples _ (fun h => hfits (forall_interval.mp h))]
  rfl

theorem within_pedestal : (pedestal samples start n).Within samples.length ↔ Fits samples start (start + n - 1) := by
  unfold pedestal
  rw [within_bind, within_loop, forall_interval]
  constructor
  · rintro ⟨h, _⟩
    exact h
  · intro h
    exact ⟨h, fun _ _ => within_pure _ _⟩

theorem length_subtract (samples : List ℚ) (ped : ℚ) : (subtract samples ped).length = samples.length :=
  List.length_map _

theorem subtract_ne_nil (samples : List ℚ) (ped : ℚ) : subtract samples ped ≠ [] ↔ samples ≠ [] :=
  not_congr List.map_eq_nil_iff

/-- A window of one sample or more, if the waveform has so many samples, is one also after rounding. -/
theorem one_le_inSamples {parm : Int} {dT : ℚ} (hdT : 0 < dT) (hparm : dT ≤ parm) {size : Nat} (hsize : size < 2 ^ 31)
    (hlt : parm / dT < size) : 1 ≤ inSamples parm dT := by
  have hone : (1 : ℚ) ≤ parm / dT := by
    rw [le_div_iff₀ hdT, one_mul]
    exact hparm
  -- rounding does not pass the integers 1 and `size`
  have hlow : (1 : ℚ) ≤ Binary64.div parm dT := by
    have hround := Binary64.round_mono hone
    rwa [show Binary64.round 1 = 1 by exact_mod_cast Binary64.round_natCast (n := 1) (by omega)] at hround
  have hhigh : Binary64.div parm dT < 2 ^ 31 := by
    have hround := Binary64.round_mono hlt.le
    rw [Binary64.round_natCast (by omega)] at hround
    exact lt_of_le_of_lt hround (by exact_mod_cast hsize)
  unfold inSamples
  rw [if_neg hdT.ne', Binary64.toInt_of_nonneg (by linarith) hhigh, Int.le_floor]
  exact_mod_cast hlow

end Pedestals

end BdxReco
