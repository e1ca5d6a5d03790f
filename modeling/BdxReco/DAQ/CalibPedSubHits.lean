import BdxReco.System.CalibrationReads
import Mathlib.Data.List.Forall2
import Mathlib.Tactic.NormNum

/-!
# `DAQ.CalibPedSubHits` — the calibration of the digitised waveforms

`fa250Mode1CalibPedSubHit_factory::evnt` has one loop for the JLab FADCs and a copy of it for the waveboards. The copy
takes the sampling time as it comes: the size of the answer is not looked at, and a time of 0 is kept.
`calibratedAlike_iff` says for which tables and events the two loops agree.
-/

namespace BdxReco

namespace PedSub

/-! ## What is wanted -/

/-- The sampling time of a channel: that of the table, or 4 ns for tables that do not have it. -/
def samplingTime (PARMSdata : List ℚ) : ℚ :=
  match PARMSdata[1]? with
  | some dT => if dT = 0 then 4 else dT
  | none => 4

theorem samplingTime_ne_zero (PARMSdata : List ℚ) : samplingTime PARMSdata ≠ 0 := by
  unfold samplingTime
  cases PARMSdata[1]? with
  | none => norm_num
  | some dT =>
      show (if dT = 0 then (4 : ℚ) else dT) ≠ 0
      by_cases hdT : dT = 0
      · rw [if_pos hdT]
        norm_num
      · rwa [if_neg hdT]

section Calibration

variable (pedestals parms : LoadedTable Csc)

/-- The hit of a waveform, sampled every `dT`. -/
def calibrated (dT : ℚ) (hit : Fa250Mode1Hit) : Fa250Mode1CalibPedSubHit :=
  let pedestal := (tableLookup pedestals.table hit.channel).getD 0 0
  let RMS := (tableLookup pedestals.table hit.channel).getD 1 0
  let LSB := (tableLookup parms.table hit.channel).getD 0 0
  { toFa250Hit := hit.toFa250Hit
    samples := hit.samples.map (fun sample => (sample - pedestal) * LSB)
    dT, ped := pedestal * LSB, RMS := |RMS * LSB| }

/-- Two waveforms of a channel are calibrated alike. -/
structure Alike (hit : Fa250Mode1Hit) (fadc wb : Fa250Mode1CalibPedSubHit) : Prop where
  samples : fadc.samples = wb.samples
  samples_eq : fadc.samples = (calibrated pedestals parms 0 hit).samples
  ped : fadc.ped = wb.ped
  RMS : fadc.RMS = wb.RMS
  dT : fadc.dT = wb.dT
  dT_eq : fadc.dT = samplingTime (tableLookup parms.table hit.channel)
  dT_ne_zero : fadc.dT ≠ 0

variable (hits wbhitsV1 : List Fa250Mode1Hit)

/-- The event, from the handlers of the tables. -/
def run : Option State := evnt { pedestals := pedestals.handler, parms := parms.handler } hits wbhitsV1

/-- **FADC and waveboard hits are calibrated alike**: there is a hit for every waveform, and those of equal waveforms
    of a channel agree. -/
def CalibratedAlike : Prop :=
  ∃ s fadc wb, run pedestals parms hits wbhitsV1 = some s ∧ s.data = fadc ++ wb ∧
    fadc.length = hits.length ∧ wb.length = wbhitsV1.length ∧
    ∀ p ∈ hits.zip fadc, ∀ q ∈ wbhitsV1.zip wb, p.1.channel = q.1.channel → p.1.samples = q.1.samples →
      Alike pedestals parms p.1 p.2 q.2

/-- Every channel of a waveboard has a sampling time in the table, and one that is not 0 where there is the same
    waveform of a FADC. -/
structure HasSamplingTime : Prop where
  column : ∀ wbhit ∈ wbhitsV1, 2 ≤ (tableLookup parms.table wbhit.channel).length
  ne_zero : ∀ wbhit ∈ wbhitsV1, (∃ hit ∈ hits, hit.channel = wbhit.channel ∧ hit.samples = wbhit.samples) →
    (tableLookup parms.table wbhit.channel)[1]? ≠ some 0

/-! ## The two loops -/

/-- One turn of a loop, whichever way it gets its `dT`. -/
theorem calibrate_spec {dTof : List ℚ → Option ℚ} {dT : ℚ} {s : State} (hs : Ready pedestals.table parms.table s)
    {hit : Fa250Mode1Hit} (hhas : Has pedestals.table parms.table 1 hit.channel)
    (hdT : dTof (tableLookup parms.table hit.channel) = some dT) :
    ∃ s', calibrate dTof s hit = some s' ∧ Ready pedestals.table parms.table s' ∧
      s'.data = s.data ++ [calibrated pedestals parms dT hit] := by
  obtain ⟨hped, hparms⟩ := hs
  unfold Has at hhas
  unfold calibrate calibrated
  simp only [hped hit.channel, hparms hit.channel]
  match hpedestals : tableLookup pedestals.table hit.channel, hlookup : tableLookup parms.table hit.channel with
  | [], _ => simp [hpedestals] at hhas
  | [_], _ => simp [hpedestals] at hhas
  | _ :: _ :: _, [] => simp [hlookup] at hhas
  | pedestal :: RMS :: _, LSB :: _ =>
      rw [hlookup] at hdT
      simp only [List.getElem?_cons_zero, List.getElem?_cons_succ, Option.bind_eq_bind, Option.bind_some, hdT]
      exact ⟨_, rfl, ⟨hped.getCalib _, hparms.getCalib _⟩, rfl⟩

/-- A whole loop. -/
theorem calibrate_loop {dTof : List ℚ → Option ℚ} {s : State} (hs : Ready pedestals.table parms.table s)
    {ops : List Fa250Mode1Hit}
    (hops : ∀ hit ∈ ops, Has pedestals.table parms.table 1 hit.channel ∧
      ∃ dT, dTof (tableLookup parms.table hit.channel) = some dT) :
    ∃ s' out, ops.foldlM (calibrate dTof) s = some s' ∧ Ready pedestals.table parms.table s' ∧
      s'.data = s.data ++ out ∧ List.Forall₂ (fun hit fadc => ∃ dT,
        dTof (tableLookup parms.table hit.channel) = some dT ∧ fadc = calibrated pedestals parms dT hit) ops out := by
  apply Run.foldlM_publishes (Ready pedestals.table parms.table) State.data _ _ hs
  intro s hit hhit hs
  obtain ⟨hhas, dT, hdT⟩ := hops hit hhit
  obtain ⟨s', hstep, hs', hdata⟩ := calibrate_spec pedestals parms hs hhas hdT
  exact ⟨s', _, hstep, hs', hdata, dT, hdT, rfl⟩

theorem dTofFADC_eq {PARMSdata : List ℚ} : dTofFADC PARMSdata = some (samplingTime PARMSdata) := by
  match PARMSdata with
  | [] => rfl
  | [_] => rfl
  | LSB :: dT :: _ => simp [dTofFADC, samplingTime]

theorem samplingTime_eq_iff {PARMSdata : List ℚ} {dT : ℚ} (hdT : dTofWaveboard PARMSdata = some dT) :
    samplingTime PARMSdata = dT ↔ PARMSdata[1]? ≠ some 0 := by
  unfold dTofWaveboard at hdT
  unfold samplingTime
  rw [hdT]
  simp only [ne_eq, Option.some.injEq]
  by_cases h : dT = 0
  · simp [h]
  · simp [h]

/-- Both loops, where the reads exist. -/
theorem run_spec (hhas : ∀ hit ∈ hits ++ wbhitsV1, Has pedestals.table parms.table 1 hit.channel)
    (hcolumn : ∀ wbhit ∈ wbhitsV1, 2 ≤ (tableLookup parms.table wbhit.channel).length) :
    ∃ s fadc wb, run pedestals parms hits wbhitsV1 = some s ∧ s.data = fadc ++ wb ∧
      List.Forall₂ (fun hit out => out = calibrated pedestals parms
        (samplingTime (tableLookup parms.table hit.channel)) hit) hits fadc ∧
      List.Forall₂ (fun wbhit out => ∃ dT, dTofWaveboard (tableLookup parms.table wbhit.channel) = some dT ∧
        out = calibrated pedestals parms dT wbhit) wbhitsV1 wb := by
  obtain ⟨s₁, fadc, hfirst, hs₁, hdata₁, hfadc⟩ :=
    calibrate_loop pedestals parms (s := ⟨pedestals.handler, parms.handler, []⟩) ⟨pedestals.serves, parms.serves⟩
      (fun hit hhit => ⟨hhas hit (List.mem_append_left _ hhit), _, dTofFADC_eq⟩)
  obtain ⟨s₂, wb, hsecond, _, hdata₂, hwb⟩ := calibrate_loop pedestals parms hs₁
    (fun wbhit hwbhit => ⟨hhas wbhit (List.mem_append_right _ hwbhit),
      Option.isSome_iff_exists.mp ((dTofWaveboard_isSome _).mpr (hcolumn wbhit hwbhit))⟩)
  refine ⟨s₂, fadc, wb, ?_, ?_, ?_, hwb⟩
  · unfold run evnt
    rw [hfirst]
    exact hsecond
  · rw [hdata₂, hdata₁, List.nil_append]
  · refine hfadc.imp ?_
    rintro hit out ⟨dT, hdT, hout⟩
    rw [dTofFADC_eq, Option.some.injEq] at hdT
    rw [hout, hdT]

/-- The hits of equal waveforms agree when their `dT`s do. -/
theorem alike_iff {hit wbhit : Fa250Mode1Hit} (hchannel : hit.channel = wbhit.channel)
    (hsamples : hit.samples = wbhit.samples) (dT : ℚ) :
    Alike pedestals parms hit (calibrated pedestals parms (samplingTime (tableLookup parms.table hit.channel)) hit)
        (calibrated pedestals parms dT wbhit) ↔
      samplingTime (tableLookup parms.table hit.channel) = dT := by
  constructor
  · intro h
    exact h.dT
  · intro hdT
    have hsame : ∀ dT, (calibrated pedestals parms dT hit).samples = (calibrated pedestals parms dT wbhit).samples ∧
        (calibrated pedestals parms dT hit).ped = (calibrated pedestals parms dT wbhit).ped ∧
        (calibrated pedestals parms dT hit).RMS = (calibrated pedestals parms dT wbhit).RMS := by
      intro dT
      unfold calibrated
      rw [hchannel, hsamples]
      exact ⟨rfl, rfl, rfl⟩
    exact ⟨(hsame dT).1, rfl, (hsame dT).2.1, (hsame dT).2.2, hdT, rfl, samplingTime_ne_zero _⟩

/-- Where the loops agree, the table has the sampling times. -/
theorem hasSamplingTime_of_alike
    (hhas : ∀ hit ∈ hits ++ wbhitsV1, Has pedestals.table parms.table 1 hit.channel)
    (h : CalibratedAlike pedestals parms hits wbhitsV1) : HasSamplingTime parms hits wbhitsV1 := by
  obtain ⟨s, fadc, wb, hrun, hdata, hlen, hlenWb, halike⟩ := h
  have hcolumn : ∀ wbhit ∈ wbhitsV1, 2 ≤ (tableLookup parms.table wbhit.channel).length := by
    have hsome : (run pedestals parms hits wbhitsV1).isSome = true := by
      rw [hrun]
      rfl
    intro wbhit hwbhit
    exact (((evnt_isSome_iff ⟨pedestals.serves, parms.serves⟩ hits wbhitsV1).mp hsome).2 wbhit hwbhit).2
  refine ⟨hcolumn, ?_⟩
  rintro wbhit hwbhit ⟨hit, hhit, hchannel, hsamples⟩
  obtain ⟨s', fadc', wb', hrun', hdata', hfadc, hwb⟩ := run_spec pedestals parms hits wbhitsV1 hhas hcolumn
  obtain rfl : s' = s := Option.some.inj (hrun'.symm.trans hrun)
  obtain ⟨rfl, rfl⟩ := List.append_inj (hdata'.symm.trans hdata) (hfadc.length_eq.symm.trans hlen.symm)
  obtain ⟨out, hzip⟩ := Run.exists_result hfadc.length_eq hhit
  obtain ⟨outWb, hzipWb⟩ := Run.exists_result hwb.length_eq hwbhit
  have hout := (List.forall₂_iff_zip.mp hfadc).2 hzip
  obtain ⟨dT, hdT, houtWb⟩ := (List.forall₂_iff_zip.mp hwb).2 hzipWb
  have hpair := halike _ hzip _ hzipWb hchannel hsamples
  rw [hout, houtWb, alike_iff pedestals parms hchannel hsamples, hchannel] at hpair
  exact (samplingTime_eq_iff hdT).mp hpair

/-- **The two loops agree** exactly when the table has a sampling time for every waveboard, which is not 0 where there
    is something to compare with. -/
theorem calibratedAlike_iff (hhas : ∀ hit ∈ hits ++ wbhitsV1, Has pedestals.table parms.table 1 hit.channel) :
    CalibratedAlike pedestals parms hits wbhitsV1 ↔ HasSamplingTime parms hits wbhitsV1 := by
  constructor
  · exact hasSamplingTime_of_alike pedestals parms hits wbhitsV1 hhas
  · rintro ⟨hcolumn, hne⟩
    obtain ⟨s, fadc, wb, hrun, hdata, hfadc, hwb⟩ := run_spec pedestals parms hits wbhitsV1 hhas hcolumn
    refine ⟨s, fadc, wb, hrun, hdata, hfadc.length_eq.symm, hwb.length_eq.symm, ?_⟩
    rintro ⟨hit, out⟩ hzip ⟨wbhit, outWb⟩ hzipWb hchannel hsamples
    obtain rfl := (List.forall₂_iff_zip.mp hfadc).2 hzip
    obtain ⟨dT, hdT, rfl⟩ := (List.forall₂_iff_zip.mp hwb).2 hzipWb
    have hset := hne wbhit (List.of_mem_zip hzipWb).1 ⟨hit, (List.of_mem_zip hzip).1, hchannel, hsamples⟩
    refine (alike_iff pedestals parms hchannel hsamples dT).mpr ?_
    rw [show hit.channel = wbhit.channel from hchannel]
    exact (samplingTime_eq_iff hdT).mpr hset

end Calibration

/-! ## A sampling time of 0 -/

/-- Parameters for the channel 1 of the slot 3 of the crate 0, with a sampling time of 0. -/
def zeroNsParms : LoadedTable Csc := ⟨"/DAQ/parms", [[0, 3, 1, 1, 0]], by unfold InRange; decide, []⟩

def waveform : Fa250Mode1Hit where
  channel := ⟨0, 3, 1⟩
  samples := [101, 104, 99]

theorem calibratedAlike_fourNs :
    CalibratedAlike channelOneTables.pedestals channelOneTables.parms [waveform] [waveform] := by
  refine (calibratedAlike_iff _ _ _ _ (by unfold Has; decide)).mpr ⟨by decide, ?_⟩
  intro wbhit hwbhit _
  rw [List.mem_singleton.mp hwbhit]
  decide

theorem not_calibratedAlike_zero :
    (∀ hit ∈ [waveform] ++ [waveform],
      Has channelOneTables.pedestals.table zeroNsParms.table 1 hit.channel) ∧
    ¬ CalibratedAlike channelOneTables.pedestals zeroNsParms [waveform] [waveform] := by
  have hhas : ∀ hit ∈ [waveform] ++ [waveform],
      Has channelOneTables.pedestals.table zeroNsParms.table 1 hit.channel := by
    unfold Has
    decide
  refine ⟨hhas, ?_⟩
  intro h
  have hset := hasSamplingTime_of_alike _ _ _ _ hhas h
  exact hset.ne_zero waveform (by simp) ⟨waveform, by simp, rfl, rfl⟩ (by decide)

end PedSub

end BdxReco
