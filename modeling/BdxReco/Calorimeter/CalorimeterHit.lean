import BdxReco.Lib.GroupBy
import BdxReco.System.CalibrationReads

/-!
# `Calorimeter.CalorimeterHit` — the hits of the calorimeter and the digi hits behind them

The function itself is `CalorimeterHitFactory.evnt` of `System.CalibrationReads`, where its lookups of the constants
are. A crystal with one digi hit is published with what this digi hit has. For several digi hits the charge and the
time are those of the largest, but the amplitude is read through the pointer of the loop that associates them, which
stands at the last one, and `RMSflag` is not set. `described_iff` says for which events this can be seen.
-/

namespace BdxReco

namespace CalorimeterHitFactory

open Run StdMap

/-! ## The crystals of an event -/

/-- The digi hits of a crystal that are considered. -/
def digisOf (digis : List CalorimeterDigiHit) (key : CaloIndex) : List CalorimeterDigiHit :=
  digis.filter (fun d => d.channel.readout = 1 ∧ detector d.channel = key)

section Crystals

variable {q : Parms} {digis : List CalorimeterDigiHit} {key : CaloIndex}

theorem hitMap_eq (digis : List CalorimeterDigiHit) :
    hitMap digis = groupBy (fun d => detector d.channel) (digis.filter (fun d => d.channel.readout = 1)) := by
  unfold hitMap groupBy
  rw [List.foldl_filter]
  congr 1
  funext map digi
  by_cases hreadout : digi.channel.readout = 1
  · simp [hreadout]
  · simp [hreadout]

theorem mem_keys_hitMap : key ∈ (hitMap digis).keys ↔ digisOf digis key ≠ [] := by
  rw [hitMap_eq]
  exact mem_keys_groupBy_filter _ _

theorem entries_hitMap (digis : List CalorimeterDigiHit) :
    (hitMap digis).entries = (hitMap digis).keys.map (fun key => (key, digisOf digis key)) := by
  rw [hitMap_eq]
  exact entries_groupBy_filter _ _ digis

theorem detector_of_mem {d : CalorimeterDigiHit} (hd : d ∈ digisOf digis key) : detector d.channel = key :=
  (of_decide_eq_true (List.mem_filter.mp hd).2).2

/-- The crystal that is looked up is the one of the digi hits. -/
theorem lookedUp_eq {channel : CaloIndex} (h : lookedUp q (digisOf digis key) = some channel) : channel = key := by
  have hmem : ∃ d ∈ digisOf digis key, channel = detector d.channel := by
    unfold lookedUp at h
    split at h
    · cases h
    · next digi heq =>
        split at h
        · exact ⟨digi, by rw [heq]; simp, (Option.some.inj h).symm⟩
        · cases h
    · next digi₀ digi₁ rest heq =>
        split at h
        · refine ⟨_, ?_, (Option.some.inj h).symm⟩
          rw [heq]
          exact List.mem_cons_of_mem _ (List.getLast_mem _)
        · cases h
  obtain ⟨d, hd, rfl⟩ := hmem
  exact detector_of_mem hd

theorem channel_hitFrom (hne : digisOf digis key ≠ []) (gain ped : ℚ) :
    (hitFrom q (digisOf digis key) gain ped).channel = key := by
  unfold hitFrom
  split
  · next heq => exact absurd heq hne
  · next digi heq => exact detector_of_mem (by rw [heq]; simp)
  · next digi₀ digi₁ rest heq =>
      have hlast : (digi₁ :: rest).getLast (by simp) ∈ digisOf digis key := by
        rw [heq]
        exact List.mem_cons_of_mem _ (List.getLast_mem _)
      exact detector_of_mem hlast

end Crystals

/-! ## What an event publishes -/

/-- What is published for a crystal with the constants of the table. -/
def hitOf (q : Parms) (t : Table) (digis : List CalorimeterDigiHit) : Option CalorimeterHit :=
  (lookedUp q digis).map (fun channel =>
    hitFrom q digis ((tableLookup t channel).getD 0 0) ((tableLookup t channel).getD 1 0))

section Event

variable {q : Parms} {t : Table} {s s' : State} {digis : List CalorimeterDigiHit}

theorem readEne_value {ene : CalibrationHandler CaloIndex} (h : Serves t ene) {channel : CaloIndex}
    {r : ℚ × ℚ × CalibrationHandler CaloIndex} (hr : readEne ene channel = some r) :
    r.1 = (tableLookup t channel).getD 0 0 ∧ r.2.1 = (tableLookup t channel).getD 1 0 := by
  have hsecond := h.getCalib channel
  unfold readEne at hr
  simp only [h channel, hsecond channel, Option.bind_eq_bind, Option.bind_eq_some_iff] at hr
  obtain ⟨gain, hgain, ped, hped, hr⟩ := hr
  rw [← Option.some.inj hr, List.getD_eq_getElem?_getD, List.getD_eq_getElem?_getD, hgain, hped]
  exact ⟨rfl, rfl⟩

/-- One crystal. -/
theorem data_publish (hs : Serves t s.ene) (h : publish q s digis = some s') :
    Serves t s'.ene ∧ s'.data = s.data ++ (hitOf q t digis).toList := by
  refine ⟨(publish_checked q t).keeps s digis s' hs h, ?_⟩
  rw [publish_eq] at h
  unfold hitOf
  cases hlooked : lookedUp q digis with
  | none =>
      rw [hlooked] at h
      rw [← Option.some.inj h]
      simp
  | some channel =>
      rw [hlooked] at h
      obtain ⟨r, hr, hs'⟩ := Option.map_eq_some_iff.mp h
      obtain ⟨hgain, hped⟩ := readEne_value hs hr
      rw [← hs', hgain, hped]
      rfl

/-- All crystals. -/
theorem data_foldlM {groups : List (List CalorimeterDigiHit)} (hs : Serves t s.ene)
    (h : groups.foldlM (publish q) s = some s') :
    s'.data = s.data ++ groups.flatMap (fun g => (hitOf q t g).toList) := by
  induction groups generalizing s with
  | nil =>
      obtain rfl : s = s' := Option.some.inj h
      simp
  | cons g groups ih =>
      rw [List.foldlM_cons] at h
      obtain ⟨s₁, hfirst, hrest⟩ := Option.bind_eq_some_iff.mp h
      obtain ⟨hs₁, hdata⟩ := data_publish hs hfirst
      rw [ih hs₁ hrest, hdata, List.flatMap_cons, List.append_assoc]

/-- **The hits of an event**, crystal by crystal. -/
theorem data_evnt (hs : Serves t s.ene) (hdata : s.data = []) (h : evnt q s digis = some s') :
    s'.data = (hitMap digis).keys.flatMap (fun key => (hitOf q t (digisOf digis key)).toList) := by
  unfold evnt at h
  have hfold := data_foldlM hs h
  rw [hdata, List.nil_append, entries_hitMap, List.map_map] at hfold
  rw [hfold, List.flatMap_map]
  rfl

/-- What is published for one crystal. -/
def publishedFor (hits : List CalorimeterHit) (key : CaloIndex) : List CalorimeterHit :=
  hits.filter (fun hit => hit.channel = key)

theorem publishedFor_evnt (hs : Serves t s.ene) (hdata : s.data = []) (h : evnt q s digis = some s') (key : CaloIndex) :
    publishedFor s'.data key
      = if digisOf digis key ≠ [] then (hitOf q t (digisOf digis key)).toList else [] := by
  unfold publishedFor
  rw [data_evnt hs hdata h, filter_flatMap (nodup_keys (hitMap digis)) _ CalorimeterHit.channel]
  · simp only [mem_keys_hitMap]
  · intro key hkey hit hhit
    rw [mem_keys_hitMap] at hkey
    unfold hitOf at hhit
    rw [Option.mem_toList, Option.map_eq_some_iff] at hhit
    obtain ⟨channel, _, rfl⟩ := hhit
    exact channel_hitFrom hkey _ _

end Event

/-! ## One digi hit behind every hit -/

/-- The number of digi hits above the threshold for several of them. -/
def countAbove (q : Parms) (digis : List CalorimeterDigiHit) : Nat :=
  (digis.filter (fun d => d.Q > (q.thrMultipleReadout : ℚ))).length

/-- The cut on a crystal. -/
def Passes (q : Parms) (digis : List CalorimeterDigiHit) : Prop :=
  if digis.length = 1 then ∀ d ∈ digis, d.Q > (q.thrSingleReadout : ℚ) else (countAbove q digis : Int) ≥ q.nMultipleReadout

/-- `E = (Eraw - ped) / gain`, or `Eraw - ped` for the gain 0. -/
def Calibrated (t : Table) (key : CaloIndex) (hit : CalorimeterHit) : Prop :=
  ∃ gain ped rest, tableLookup t key = gain :: ped :: rest ∧
    hit.E = if gain = 0 then hit.Eraw - ped else (hit.Eraw - ped) / gain

/-- **What is wanted of a crystal**, `hits` being what is published for it. -/
structure CrystalDescribed (q : Parms) (t : Table) (key : CaloIndex) (digis : List CalorimeterDigiHit)
    (hits : List CalorimeterHit) : Prop where
  published : hits ≠ [] ↔ Passes q digis
  oneDigiHit : ∀ hit ∈ hits, ∃ d ∈ digis, (∀ x ∈ digis, x.Q ≤ d.Q) ∧ hit.Eraw = d.Q ∧ hit.T = some d.T ∧
    hit.A = d.A ∧ hit.RMSflag = some d.RMSflag
  calibrated : ∀ hit ∈ hits, Calibrated t key hit

/-- **What is wanted of an event.** -/
structure Described (q : Parms) (t : Table) (digis : List CalorimeterDigiHit) (hits : List CalorimeterHit) : Prop where
  atMostOne : ∀ key, (publishedFor hits key).length ≤ 1
  crystals : ∀ key, digisOf digis key ≠ [] → CrystalDescribed q t key (digisOf digis key) (publishedFor hits key)
  others : ∀ key, digisOf digis key = [] → publishedFor hits key = []

section Description

variable {q : Parms} {t : Table} {digis : List CalorimeterDigiHit} {key : CaloIndex}

theorem scan_concat (q : Parms) (digis : List CalorimeterDigiHit) (d : CalorimeterDigiHit) :
    (scan q (digis ++ [d])).countOk
      = if d.Q > q.thrMultipleReadout then (scan q digis).countOk + 1 else (scan q digis).countOk := by
  unfold scan
  rw [List.foldl_append]
  simp only [List.foldl_cons, List.foldl_nil]
  split
  · split <;> rfl
  · split <;> rfl

theorem countOk_scan (q : Parms) (digis : List CalorimeterDigiHit) : (scan q digis).countOk = countAbove q digis := by
  induction digis using List.reverseRecOn with
  | nil => rfl
  | append_singleton digis d ih =>
      rw [scan_concat, ih]
      unfold countAbove
      rw [List.filter_append, List.length_append]
      by_cases hd : d.Q > (q.thrMultipleReadout : ℚ)
      · simp [hd]
      · simp [hd]

/-- A crystal is looked up when it passes the cut. -/
theorem lookedUp_isSome_iff (hne : digis ≠ []) : (lookedUp q digis).isSome = true ↔ Passes q digis := by
  unfold Passes
  match digis with
  | [d] =>
      unfold lookedUp
      by_cases hd : d.Q > (q.thrSingleReadout : ℚ) <;> simp [hd]
  | digi₀ :: digi₁ :: rest =>
      have hlen : ¬ (digi₀ :: digi₁ :: rest).length = 1 := by simp
      rw [if_neg hlen, ← countOk_scan]
      unfold lookedUp
      by_cases hok : (scan q (digi₀ :: digi₁ :: rest)).countOk ≥ q.nMultipleReadout <;> simp [hok]

/-- The constants of a crystal that is looked up. -/
theorem hitOf_eq (h : Passes q (digisOf digis key)) (hne : digisOf digis key ≠ []) :
    hitOf q t (digisOf digis key) = some (hitFrom q (digisOf digis key) ((tableLookup t key).getD 0 0)
      ((tableLookup t key).getD 1 0)) := by
  obtain ⟨channel, hchannel⟩ := Option.isSome_iff_exists.mp ((lookedUp_isSome_iff hne).mpr h)
  unfold hitOf
  rw [hchannel, lookedUp_eq hchannel]
  rfl

theorem hitOf_eq_none (h : ¬ Passes q digis) (hne : digis ≠ []) : hitOf q t digis = none := by
  have hnone : lookedUp q digis = none := by
    rw [← Option.not_isSome_iff_eq_none, lookedUp_isSome_iff hne]
    exact h
  unfold hitOf
  rw [hnone]
  rfl

/-- The constants exist: the event is finished. -/
theorem evnt_isSome_iff_constants (q : Parms) (ene : LoadedTable CaloIndex) (digis : List CalorimeterDigiHit) :
    (evnt q { ene := ene.handler } digis).isSome = true ↔
      ∀ key, digisOf digis key ≠ [] → Passes q (digisOf digis key) → 2 ≤ (tableLookup ene.table key).length := by
  rw [evnt_isSome_iff q (s := { ene := ene.handler }) ene.serves, entries_hitMap, List.forall_mem_map]
  constructor
  · intro h key hne hpass
    obtain ⟨channel, hchannel⟩ := Option.isSome_iff_exists.mp ((lookedUp_isSome_iff hne).mpr hpass)
    have hconstants := h key (mem_keys_hitMap.mpr hne) channel hchannel
    rwa [lookedUp_eq hchannel] at hconstants
  · intro h key hkey channel hchannel
    have hne := mem_keys_hitMap.mp hkey
    rw [lookedUp_eq hchannel]
    exact h key hne ((lookedUp_isSome_iff hne).mp (Option.isSome_iff_exists.mpr ⟨channel, hchannel⟩))

/-- A crystal that does not pass the cut. -/
theorem crystalDescribed_of_not_passes (h : ¬ Passes q digis) (hne : digis ≠ []) :
    CrystalDescribed q t key digis (hitOf q t digis).toList := by
  rw [hitOf_eq_none h hne]
  exact ⟨⟨fun hnil => absurd rfl hnil, fun hpass => absurd hpass h⟩, by simp, by simp⟩

/-- A crystal with one digi hit. -/
theorem crystalDescribed_single {d : CalorimeterDigiHit} (hgroup : digisOf digis key = [d])
    (hconstants : d.Q > q.thrSingleReadout → 2 ≤ (tableLookup t key).length) :
    CrystalDescribed q t key (digisOf digis key) (hitOf q t (digisOf digis key)).toList := by
  have hne : digisOf digis key ≠ [] := by
    rw [hgroup]
    exact List.cons_ne_nil d []
  have hpasses : Passes q (digisOf digis key) ↔ d.Q > q.thrSingleReadout := by
    rw [hgroup]
    simp [Passes]
  by_cases hd : d.Q > (q.thrSingleReadout : ℚ)
  · have hpass := hpasses.mpr hd
    rw [hitOf_eq hpass hne, hgroup]
    obtain ⟨gain, ped, rest, htable⟩ : ∃ gain ped rest, tableLookup t key = gain :: ped :: rest := by
      have hlen := hconstants hd
      match htable : tableLookup t key with
      | [] => simp [htable] at hlen
      | [_] => simp [htable] at hlen
      | gain :: ped :: rest => exact ⟨gain, ped, rest, rfl⟩
    rw [htable]
    refine ⟨?_, ?_, ?_⟩
    · simpa [Passes] using hd
    · intro hit hhit
      obtain rfl := List.mem_singleton.mp hhit
      exact ⟨d, List.mem_singleton.mpr rfl, by simp, rfl, rfl, rfl, rfl⟩
    · intro hit hhit
      obtain rfl := List.mem_singleton.mp hhit
      refine ⟨gain, ped, rest, htable, ?_⟩
      show energy d.Q gain ped = if gain = 0 then d.Q - ped else (d.Q - ped) / gain
      unfold energy
      by_cases hgain : gain = 0 <;> simp [hgain]
  · exact crystalDescribed_of_not_passes (fun hpass => hd (hpasses.mp hpass)) hne

/-- A crystal with several digi hits: its `RMSflag` is not set. -/
theorem crystalDescribed_several_iff (hlen : 2 ≤ (digisOf digis key).length) :
    CrystalDescribed q t key (digisOf digis key) (hitOf q t (digisOf digis key)).toList ↔
      (countAbove q (digisOf digis key) : Int) < q.nMultipleReadout := by
  have hne : digisOf digis key ≠ [] := List.ne_nil_of_length_pos (by omega)
  have hpasses : Passes q (digisOf digis key) ↔ (countAbove q (digisOf digis key) : Int) ≥ q.nMultipleReadout := by
    unfold Passes
    rw [if_neg (by omega)]
  constructor
  · intro h
    by_contra hcount
    have hpass := hpasses.mpr (not_lt.mp hcount)
    rw [hitOf_eq hpass hne] at h
    obtain ⟨d, _, _, _, _, _, hflag⟩ := h.oneDigiHit _ (List.mem_singleton.mpr rfl)
    unfold hitFrom at hflag
    split at hflag
    · cases hflag
    · next digi heq =>
        rw [heq] at hlen
        exact absurd hlen (by simp)
    · cases hflag
  · intro hcount
    exact crystalDescribed_of_not_passes (fun hpass => absurd (hpasses.mp hpass) (not_le.mpr hcount)) hne

/-- An event is described when its crystals are. -/
theorem described_iff_crystals {ene : LoadedTable CaloIndex} {s : State}
    (hevnt : evnt q { ene := ene.handler } digis = some s) :
    Described q ene.table digis s.data ↔ ∀ key, digisOf digis key ≠ [] →
      CrystalDescribed q ene.table key (digisOf digis key) (hitOf q ene.table (digisOf digis key)).toList := by
  have hpublished := publishedFor_evnt ene.serves rfl hevnt
  constructor
  · intro h key hne
    have hcrystal := h.crystals key hne
    rwa [hpublished, if_pos hne] at hcrystal
  · intro h
    refine ⟨?_, ?_, ?_⟩
    · intro key
      rw [hpublished]
      split
      · cases hitOf q ene.table (digisOf digis key) <;> simp
      · exact Nat.zero_le 1
    · intro key hne
      rw [hpublished, if_pos hne]
      exact h key hne
    · intro key hnil
      rw [hpublished, if_neg (not_not.mpr hnil)]

end Description

/-- **Exactly when every hit describes one digi hit**: no crystal with several digi hits is published, and the ones that
    are have constants. -/
theorem described_iff (q : Parms) (ene : LoadedTable CaloIndex) (digis : List CalorimeterDigiHit) :
    (∃ s, evnt q { ene := ene.handler } digis = some s ∧ Described q ene.table digis s.data) ↔
      (∀ key d, digisOf digis key = [d] → d.Q > q.thrSingleReadout → 2 ≤ (tableLookup ene.table key).length) ∧
      ∀ key, 2 ≤ (digisOf digis key).length → (countAbove q (digisOf digis key) : Int) < q.nMultipleReadout := by
  constructor
  · rintro ⟨s, hevnt, hdescribed⟩
    constructor
    · intro key d hgroup hd
      have hne : digisOf digis key ≠ [] := by
        rw [hgroup]
        exact List.cons_ne_nil d []
      apply (evnt_isSome_iff_constants q ene digis).mp (Option.isSome_iff_exists.mpr ⟨s, hevnt⟩) key hne
      rw [hgroup]
      simpa [Passes] using hd
    · intro key hlen
      have hne : digisOf digis key ≠ [] := List.ne_nil_of_length_pos (by omega)
      exact (crystalDescribed_several_iff hlen).mp ((described_iff_crystals hevnt).mp hdescribed key hne)
  · rintro ⟨hconstants, hseveral⟩
    have hsome : (evnt q { ene := ene.handler } digis).isSome = true := by
      rw [evnt_isSome_iff_constants]
      intro key hne hpass
      by_cases hlen : (digisOf digis key).length = 1
      · obtain ⟨d, hgroup⟩ := List.length_eq_one_iff.mp hlen
        apply hconstants key d hgroup
        rw [hgroup] at hpass
        simpa [Passes] using hpass
      · -- several digi hits do not pass
        have hpos := List.length_pos_of_ne_nil hne
        have hcount := hseveral key (by omega)
        unfold Passes at hpass
        rw [if_neg hlen] at hpass
        exact absurd hpass (not_le.mpr hcount)
    obtain ⟨s, hevnt⟩ := Option.isSome_iff_exists.mp hsome
    refine ⟨s, hevnt, (described_iff_crystals hevnt).mpr ?_⟩
    intro key hne
    by_cases hlen : (digisOf digis key).length = 1
    · obtain ⟨d, hgroup⟩ := List.length_eq_one_iff.mp hlen
      exact crystalDescribed_single hgroup (hconstants key d hgroup)
    · have hpos := List.length_pos_of_ne_nil hne
      exact (crystalDescribed_several_iff (by omega)).mpr (hseveral key (by omega))

/-- Constants for one crystal. -/
def oneCrystal : LoadedTable CaloIndex := ⟨"/Calorimeter/Ene", [[0, 1, 1, 0, 2, 4]], by unfold InRange; decide, []⟩

/-- Two digi hits of one crystal, the larger one first: the amplitude is the one of the other. -/
theorem not_described_two_hits :
    ¬ ∀ (q : Parms) (ene : LoadedTable CaloIndex) (digis : List CalorimeterDigiHit),
      (∀ d ∈ digis, -9999 < d.Q ∧ 2 ≤ (tableLookup ene.table (detector d.channel)).length) →
      ∃ s, evnt q { ene := ene.handler } digis = some s ∧ Described q ene.table digis s.data := by
  intro h
  have hconstants : 2 ≤ (tableLookup oneCrystal.table (⟨0, 1, 1, 0⟩ : CaloIndex)).length := by decide
  obtain ⟨s, hevnt, hdescribed⟩ := h {} oneCrystal [⟨⟨0, 1, 1, 1⟩, 20, 100, 5, true⟩, ⟨⟨0, 1, 1, 1⟩, 10, 104, 3, true⟩]
    (by
      intro d hd
      rcases List.mem_cons.mp hd with rfl | hd
      · exact ⟨by decide +kernel, hconstants⟩
      · obtain rfl := List.mem_singleton.mp hd
        exact ⟨by decide +kernel, hconstants⟩)
  have hvalue : (evnt {} { ene := oneCrystal.handler }
      [⟨⟨0, 1, 1, 1⟩, 20, 100, 5, true⟩, ⟨⟨0, 1, 1, 1⟩, 10, 104, 3, true⟩]).map
        (fun s => (publishedFor s.data ⟨0, 1, 1, 0⟩).map (fun hit => (hit.Eraw, hit.A))) = some [(20, 3)] := by
    decide +kernel
  rw [hevnt, Option.map_some, Option.some.injEq] at hvalue
  obtain ⟨hit, hhit, hpair⟩ := List.mem_map.mp (hvalue ▸ List.mem_singleton.mpr rfl)
  obtain ⟨hEraw, hA⟩ := Prod.mk.inj hpair
  obtain ⟨d, hd, _, hQ, _, hA', _⟩ := (hdescribed.crystals ⟨0, 1, 1, 0⟩ (by decide)).oneDigiHit hit hhit
  rw [hEraw] at hQ
  rw [hA] at hA'
  -- neither of the two has this charge and this amplitude
  rcases List.mem_cons.mp (List.mem_filter.mp hd).1 with rfl | hd'
  · exact absurd hA' (by decide +kernel)
  · obtain rfl := List.mem_singleton.mp hd'
    exact absurd hQ (by decide +kernel)

end CalorimeterHitFactory

end BdxReco
