import BdxReco.DAQ.Event
import BdxReco.DAQ.TridasSource
import BdxReco.Lib.Run
import Mathlib.Data.List.Forall2

/-!
# `DAQ.WaveboardHits` — the waveforms of a TRIDAS event

`JEventSourceTRIDASDAQ::GetObjects` for the factory of the `fa250WaveboardV1Hit`s. A waveboard records every hit from a
time of its own. The source brings the waveforms of an event to one time axis: it looks for the earliest hit, and puts
as many copies of the first sample in front of a waveform as it starts ticks later.

Times are ticks of 4 ns since the year 2000. All hits of an event lie within the same second, so that the numbers of
ticks between them fit an `int`, and numbers are unbounded here.
-/

namespace BdxReco

/-- The header of a frame, as far as it is read. `fullTime` is what `getDFHFullTime` answers for it. -/
structure DataFrameHeader where
  TowerID : Nat
  EFCMID : Nat
  PMTID : Nat
  Charge : Int
  fullTime : Nat
  deriving DecidableEq, Repr

/-- A hit, with the header of its first frame. -/
structure PtHit where
  frameHeader : DataFrameHeader
  samples : List Int
  deriving DecidableEq, Repr

/-- The event of a time slice with its hits. -/
structure PtHitEvent extends PtEvent where
  hits : List PtHit
  deriving DecidableEq, Repr

/-- `fa250WaveboardV1Hit`. -/
structure Fa250WaveboardV1Hit extends Fa250Mode1Hit where
  chargeFirstDBnopedsub : Int
  deriving DecidableEq, Repr

namespace WaveboardSource

/-! ## `GetObjects` -/

/-- The loop over the hits that looks for the earliest, from the time of the first. -/
def findMinTime (minTime : Nat) (hits : List PtHit) : Nat :=
  hits.foldl (fun minTime hit =>
    let absTime := hit.frameHeader.fullTime
    if absTime < minTime then absTime else minTime) minTime

/-- The body of the loop that gets the hits. A hit without samples has no first sample. -/
def getHit (minTime : Nat) (data : List Fa250WaveboardV1Hit) (hit : PtHit) : Option (List Fa250WaveboardV1Hit) := do
  let absTime := hit.frameHeader.fullTime
  let Ndelay : Int := (absTime : Int) - (minTime : Int)
  let firstSample ← hit.samples.head?
  let fahit : Fa250WaveboardV1Hit :=
    { channel := ⟨hit.frameHeader.TowerID.toUInt8, hit.frameHeader.EFCMID.toUInt8, hit.frameHeader.PMTID.toUInt8⟩
      chargeFirstDBnopedsub := hit.frameHeader.Charge
      trigger := 0
      timestamp := absTime
      samples := List.replicate Ndelay.toNat (firstSample : ℚ) ++ hit.samples.map (fun sample : Int => (sample : ℚ)) }
  some (data ++ [fahit])

/-- `GetObjects(event, factory)` for the factory of the `fa250WaveboardV1Hit`s: what it is given. -/
def getObjectsWaveboard (event : JEvent PtHitEvent) : Option (List Fa250WaveboardV1Hit) := do
  let ptEvent ← event.ref
  let first ← ptEvent.hits.head?
  let minTime := findMinTime first.frameHeader.fullTime ptEvent.hits
  ptEvent.hits.foldlM (getHit minTime) []

/-! ## What is wanted -/

/-- The sample of a hit at an absolute tick. -/
def sampleAt (hit : PtHit) (tick : Nat) : Option Int :=
  if hit.frameHeader.fullTime ≤ tick then hit.samples[tick - hit.frameHeader.fullTime]? else none

/-- The tick is the earliest time of a hit. -/
structure IsMinTime (hits : List PtHit) (tMin : Nat) : Prop where
  mem : ∃ hit ∈ hits, hit.frameHeader.fullTime = tMin
  le : ∀ hit ∈ hits, tMin ≤ hit.frameHeader.fullTime

/-- What is published for a hit. -/
structure Padded (tMin : Nat) (hit : PtHit) (fahit : Fa250WaveboardV1Hit) : Prop where
  channel : fahit.channel = ⟨hit.frameHeader.TowerID.toUInt8, hit.frameHeader.EFCMID.toUInt8,
    hit.frameHeader.PMTID.toUInt8⟩
  timestamp : fahit.timestamp = hit.frameHeader.fullTime
  samples : ∃ firstSample, hit.samples.head? = some firstSample ∧
    fahit.samples = List.replicate (hit.frameHeader.fullTime - tMin) (firstSample : ℚ)
      ++ hit.samples.map (fun sample : Int => (sample : ℚ))

/-- **The waveforms have one time axis**: the sample with the number `k` belongs to the tick `tMin + k`. -/
structure Aligned (hits : List PtHit) (data : List Fa250WaveboardV1Hit) (tMin : Nat) : Prop where
  minTime : IsMinTime hits tMin
  padded : List.Forall₂ (Padded tMin) hits data
  sameTick : ∀ p ∈ hits.zip data, ∀ q ∈ hits.zip data, ∀ k x y,
    sampleAt p.1 (tMin + k) = some x → sampleAt q.1 (tMin + k) = some y →
      p.2.samples[k]? = some (x : ℚ) ∧ q.2.samples[k]? = some (y : ℚ)
  unpadded : ∃ p ∈ hits.zip data, p.2.samples = p.1.samples.map (fun sample : Int => (sample : ℚ))

/-! ## The earliest hit -/

theorem findMinTime_cons (minTime : Nat) (hit : PtHit) (hits : List PtHit) :
    findMinTime minTime (hit :: hits) = findMinTime (min minTime hit.frameHeader.fullTime) hits := by
  show findMinTime (if hit.frameHeader.fullTime < minTime then hit.frameHeader.fullTime else minTime) hits = _
  congr 1
  by_cases hlt : hit.frameHeader.fullTime < minTime
  · rw [if_pos hlt, Nat.min_eq_right hlt.le]
  · rw [if_neg hlt, Nat.min_eq_left (Nat.le_of_not_lt hlt)]

/-- The loop ends at the time it started from or at one of the hits, and below all of them. -/
theorem findMinTime_spec (minTime : Nat) (hits : List PtHit) :
    (findMinTime minTime hits = minTime ∨ ∃ hit ∈ hits, hit.frameHeader.fullTime = findMinTime minTime hits) ∧
      findMinTime minTime hits ≤ minTime ∧ ∀ hit ∈ hits, findMinTime minTime hits ≤ hit.frameHeader.fullTime := by
  induction hits generalizing minTime with
  | nil => exact ⟨Or.inl rfl, Nat.le_refl _, by simp⟩
  | cons hit hits ih =>
      obtain ⟨hfrom, hstart, hall⟩ := ih (min minTime hit.frameHeader.fullTime)
      rw [findMinTime_cons]
      refine ⟨?_, Nat.le_trans hstart (Nat.min_le_left _ _), ?_⟩
      · rcases hfrom with hfrom | ⟨later, hlater, heq⟩
        · rw [hfrom]
          rcases min_choice minTime hit.frameHeader.fullTime with hmin | hmin
          · exact Or.inl hmin
          · exact Or.inr ⟨hit, List.mem_cons_self, hmin.symm⟩
        · exact Or.inr ⟨later, List.mem_cons_of_mem hit hlater, heq⟩
      · intro other hother
        rcases List.mem_cons.mp hother with rfl | hother
        · exact Nat.le_trans hstart (Nat.min_le_right _ _)
        · exact hall other hother

/-- From the time of the first hit on, the loop finds the earliest. -/
theorem isMinTime_findMinTime (first : PtHit) (rest : List PtHit) :
    IsMinTime (first :: rest) (findMinTime first.frameHeader.fullTime (first :: rest)) := by
  obtain ⟨hfrom, _, hall⟩ := findMinTime_spec first.frameHeader.fullTime (first :: rest)
  refine ⟨?_, hall⟩
  rcases hfrom with hfrom | hfrom
  · exact ⟨first, List.mem_cons_self, hfrom.symm⟩
  · exact hfrom

/-! ## The waveforms -/

/-- One turn of the loop. -/
theorem getHit_spec {tMin : Nat} {hit : PtHit} (hne : hit.samples ≠ []) (data : List Fa250WaveboardV1Hit) :
    ∃ data' fahit, getHit tMin data hit = some data' ∧ data' = data ++ [fahit] ∧ Padded tMin hit fahit := by
  obtain ⟨firstSample, hfirst⟩ : ∃ firstSample, hit.samples.head? = some firstSample := by
    cases hsamples : hit.samples with
    | nil => exact absurd hsamples hne
    | cons x xs => exact ⟨x, rfl⟩
  have hdelay : ((hit.frameHeader.fullTime : Int) - (tMin : Int)).toNat = hit.frameHeader.fullTime - tMin := by
    omega
  unfold getHit
  rw [hfirst]
  refine ⟨_, _, rfl, rfl, rfl, rfl, firstSample, hfirst, ?_⟩
  rw [hdelay]

/-- A sample is published at the distance of its tick from the earliest hit. -/
theorem Padded.sampleAt {tMin : Nat} {hit : PtHit} {fahit : Fa250WaveboardV1Hit} (h : Padded tMin hit fahit)
    (hle : tMin ≤ hit.frameHeader.fullTime) {k : Nat} {x : Int} (hx : sampleAt hit (tMin + k) = some x) :
    fahit.samples[k]? = some (x : ℚ) := by
  obtain ⟨firstSample, _, hsamples⟩ := h.samples
  unfold WaveboardSource.sampleAt at hx
  by_cases hlate : hit.frameHeader.fullTime ≤ tMin + k
  · rw [if_pos hlate] at hx
    have hk : hit.frameHeader.fullTime - tMin ≤ k := by omega
    have hindex : k - (hit.frameHeader.fullTime - tMin) = tMin + k - hit.frameHeader.fullTime := by omega
    rw [hsamples, List.getElem?_append_right (by rwa [List.length_replicate]), List.length_replicate, hindex,
      List.getElem?_map, hx]
    rfl
  · rw [if_neg hlate] at hx
    exact absurd hx (Option.some_ne_none x).symm

theorem Padded.unpadded {hit : PtHit} {fahit : Fa250WaveboardV1Hit}
    (h : Padded hit.frameHeader.fullTime hit fahit) :
    fahit.samples = hit.samples.map (fun sample : Int => (sample : ℚ)) := by
  obtain ⟨firstSample, _, hsamples⟩ := h.samples
  rw [hsamples, Nat.sub_self]
  rfl

/-- What is published from the earliest time on is aligned. -/
theorem aligned_of_padded {hits : List PtHit} {data : List Fa250WaveboardV1Hit} {tMin : Nat}
    (hmin : IsMinTime hits tMin) (hpadded : List.Forall₂ (Padded tMin) hits data) : Aligned hits data tMin := by
  have hzip : ∀ p ∈ hits.zip data, Padded tMin p.1 p.2 ∧ tMin ≤ p.1.frameHeader.fullTime := by
    intro p hp
    exact ⟨(List.forall₂_iff_zip.mp hpadded).2 hp, hmin.le p.1 (List.of_mem_zip hp).1⟩
  refine ⟨hmin, hpadded, ?_, ?_⟩
  · intro p hp q hq k x y hx hy
    exact ⟨(hzip p hp).1.sampleAt (hzip p hp).2 hx, (hzip q hq).1.sampleAt (hzip q hq).2 hy⟩
  · obtain ⟨hit, hhit, rfl⟩ := hmin.mem
    obtain ⟨fahit, hmem⟩ := Run.exists_result hpadded.length_eq hhit
    exact ⟨_, hmem, (hzip _ hmem).1.unpadded⟩

/-- **The waveforms of an event are aligned.** -/
theorem getObjectsWaveboard_aligned {event : JEvent PtHitEvent} {ptEvent : PtHitEvent} (href : event.ref = some ptEvent)
    (hhits : ptEvent.hits ≠ []) (hsamples : ∀ hit ∈ ptEvent.hits, hit.samples ≠ []) :
    ∃ data tMin, getObjectsWaveboard event = some data ∧ Aligned ptEvent.hits data tMin := by
  obtain ⟨first, rest, hcons⟩ := List.exists_cons_of_ne_nil hhits
  have hmin := isMinTime_findMinTime first rest
  rw [← hcons] at hmin
  obtain ⟨data, out, hrun, _, hdata, hpadded⟩ :=
    Run.foldlM_publishes (fun _ => True) id (Padded (findMinTime first.frameHeader.fullTime ptEvent.hits))
      (fun data hit hhit _ => by
        obtain ⟨data', fahit, hstep, hdata', hpad⟩ := getHit_spec (hsamples hit hhit) data
        exact ⟨data', fahit, hstep, trivial, hdata', hpad⟩)
      (s := []) trivial
  refine ⟨data, _, ?_, aligned_of_padded hmin ?_⟩
  · unfold getObjectsWaveboard
    rw [href]
    simp only [Option.bind_eq_bind, Option.bind_some]
    rw [hcons, List.head?_cons, Option.bind_some, ← hcons]
    exact hrun
  · have hsame : data = out := hdata
    rwa [hsame]

/-- A hit that starts two ticks after the next one. -/
def delayedHit : PtHit where
  frameHeader := ⟨1, 3, 7, 40, 102⟩
  samples := [8, 9]

def earliestHit : PtHit where
  frameHeader := ⟨1, 4, 2, 35, 100⟩
  samples := [5, 6, 7, 6]

def twoHitEvent : PtHitEvent where
  id := 1
  hits := [delayedHit, earliestHit]

theorem getObjectsWaveboard_aligned_twoHits :
    ∃ data tMin, getObjectsWaveboard { ref := some twoHitEvent } = some data ∧
      Aligned twoHitEvent.hits data tMin :=
  getObjectsWaveboard_aligned (show _ = some twoHitEvent from rfl) (by decide) (by decide)

end WaveboardSource

end BdxReco
