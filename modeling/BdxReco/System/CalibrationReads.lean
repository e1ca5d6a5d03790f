import BdxReco.DAQ.Event
import BdxReco.System.CalibrationLookup
import BdxReco.TT.TranslationTable
import Mathlib.Algebra.Order.Field.Rat
import Mathlib.Algebra.Order.Group.Abs

/-!
# `System.CalibrationReads` — the readers of the constants

`getCalib` answers a channel without constants with the empty vector and leaves it to its callers to look at the size.
These are four of them: the pedestal subtraction of the waveforms, the calorimeter hits, the veto hits and the
thresholds of the calorimeter's waveform converter. Here a read of an element that does not exist is `none`.

A handler changes with every lookup, so it is passed along. `readsExist_iff` says for which tables and events all the
reads of an event exist.
-/

namespace BdxReco

open CalibIndex Run CalibrationHandler

/-! ## Handlers that answer from a table -/

section Serving

variable {T : Type} [CalibIndex T]

/-- Every answer is the one of the table `t`. -/
def Serves (t : Table) (h : CalibrationHandler T) : Prop := ∀ i, (h.getCalib i).1 = tableLookup t i

/-- A lookup does not change the answers. -/
theorem answer_getCalib (h : CalibrationHandler T) (j i : T) : ((h.getCalib j).2.getCalib i).1 = (h.getCalib i).1 := by
  rw [getCalib_answer, getCalib_answer, getCalib_memo?, getCalib_calib]
  by_cases hji : (j == i) = true
  · obtain rfl := (beq_iff j i).mp hji
    rw [if_pos hji]
    cases h.memo? j with
    | none => cases h.calib.find? j <;> rfl
    | some data => rfl
  · rw [if_neg hji, Option.or_none]

theorem Serves.getCalib {t : Table} {h : CalibrationHandler T} (hs : Serves t h) (j : T) :
    Serves t (h.getCalib j).2 := by
  intro i
  rw [answer_getCalib]
  exact hs i

theorem serves_fillCalib (name : String) {t : Table} (hrange : InRange T t) :
    Serves t ((CalibrationHandler.new name : CalibrationHandler T).fillCalib t).1 := by
  intro i
  rw [getCalib_answer, fillCalib_memo?, fillCalib_find? _ hrange]
  rfl

end Serving

/-- The reads of the elements 0 and 1 of an answer. -/
theorem isSome_twoReads {α : Type} (v : List ℚ) (f : ℚ → ℚ → α) :
    (v[0]?.bind (fun x => v[1]?.bind (fun y => some (f x y)))).isSome = true ↔ 2 ≤ v.length := by
  match v with
  | [] => simp
  | [_] => simp
  | _ :: _ :: _ => simp

/-- The handler of a table, after some lookups. -/
structure LoadedTable (T : Type) [CalibIndex T] where
  name : String
  table : Table
  inRange : InRange T table
  lookups : List T

namespace LoadedTable

variable {T : Type} [CalibIndex T]

def handler (l : LoadedTable T) : CalibrationHandler T :=
  exec (fun h i => (h.getCalib i).2) ((CalibrationHandler.new l.name).fillCalib l.table).1 l.lookups

theorem serves (l : LoadedTable T) : Serves l.table l.handler :=
  exec_invariant (serves_fillCalib l.name l.inRange) (fun _ i _ h => h.getCalib i)

end LoadedTable

/-! ## `fa250Mode1CalibPedSubHit_factory` -/

namespace PedSub

/-- The handlers of `DAQ/pedestals` and `DAQ/parms`, and the hits published so far. -/
structure State where
  pedestals : DAQCalibrationHandler
  parms : DAQCalibrationHandler
  data : List Fa250Mode1CalibPedSubHit := []

/-- `dT` of a JLab FADC, with the default for tables that do not have it. -/
def dTofFADC (PARMSdata : List ℚ) : Option ℚ := do
  let dT ← if PARMSdata.length ≥ 2 then PARMSdata[1]? else some 0
  some (if dT = 0 then 4 else dT)

def dTofWaveboard (PARMSdata : List ℚ) : Option ℚ := PARMSdata[1]?

/-- The body of the loops over the hits; they differ in how they get `dT`. -/
def calibrate (dTof : List ℚ → Option ℚ) (s : State) (hit : Fa250Mode1Hit) : Option State := do
  let (DAQdata, pedestals) := s.pedestals.getCalib hit.channel
  let pedestal ← DAQdata[0]?
  let RMS ← DAQdata[1]?
  let (PARMSdata, parms) := s.parms.getCalib hit.channel
  let LSB ← PARMSdata[0]?
  let dT ← dTof PARMSdata
  let out : Fa250Mode1CalibPedSubHit :=
    { toFa250Hit := hit.toFa250Hit
      samples := hit.samples.map (fun sample => (sample - pedestal) * LSB)
      dT, ped := pedestal * LSB, RMS := |RMS * LSB| }
  some { pedestals, parms, data := s.data ++ [out] }

def evnt (s : State) (hits wbhitsV1 : List Fa250Mode1Hit) : Option State := do
  let s ← hits.foldlM (calibrate dTofFADC) s
  wbhitsV1.foldlM (calibrate dTofWaveboard) s

/-- The handlers answer from the tables. -/
def Ready (pedestals parms : Table) (s : State) : Prop := Serves pedestals s.pedestals ∧ Serves parms s.parms

/-- The constants the reads of a hit need, with `n` columns of parameters. -/
def Has (pedestals parms : Table) (n : Nat) (channel : Csc) : Prop :=
  2 ≤ (tableLookup pedestals channel).length ∧ n ≤ (tableLookup parms channel).length

theorem calibrate_checked {dTof : List ℚ → Option ℚ} {n : Nat} (hn : 1 ≤ n)
    (hdTof : ∀ v : List ℚ, 1 ≤ v.length → ((dTof v).isSome = true ↔ n ≤ v.length)) (pedestals parms : Table) :
    Checked (calibrate dTof) (Ready pedestals parms) (fun hit => Has pedestals parms n hit.channel) := by
  constructor
  · rintro s hit ⟨hped, hparms⟩
    unfold calibrate Has
    simp only [hped hit.channel, hparms hit.channel]
    match tableLookup pedestals hit.channel, tableLookup parms hit.channel with
    | [], _ => simp
    | [_], _ => simp
    | _ :: _ :: _, [] =>
        have hne : ¬ n ≤ 0 := by omega
        simp [hne]
    | _ :: _ :: _, c :: w =>
        have hcw := hdTof (c :: w) (by simp)
        cases hdT : dTof (c :: w) with
        | none =>
            rw [hdT] at hcw
            simp only [Option.isSome_none, Bool.false_eq_true, false_iff] at hcw
            simpa [hdT] using hcw
        | some dT =>
            rw [hdT] at hcw
            simp only [Option.isSome_some, true_iff] at hcw
            simpa [hdT] using hcw
  · rintro s hit s' ⟨hped, hparms⟩ hstep
    unfold calibrate at hstep
    simp only [Option.bind_eq_bind, Option.bind_eq_some_iff] at hstep
    obtain ⟨_, _, _, _, _, _, _, _, hs'⟩ := hstep
    rw [← Option.some.inj hs']
    exact ⟨hped.getCalib _, hparms.getCalib _⟩

theorem dTofFADC_isSome (v : List ℚ) (hv : 1 ≤ v.length) : (dTofFADC v).isSome = true ↔ 1 ≤ v.length := by
  match v with
  | [] => simp at hv
  | [_] => simp [dTofFADC]
  | _ :: _ :: _ => simp [dTofFADC]

theorem dTofWaveboard_isSome (v : List ℚ) : (dTofWaveboard v).isSome = true ↔ 2 ≤ v.length := by
  match v with
  | [] => simp [dTofWaveboard]
  | [_] => simp [dTofWaveboard]
  | _ :: _ :: _ => simp [dTofWaveboard]

theorem evnt_isSome_iff {pedestals parms : Table} {s : State} (hs : Ready pedestals parms s)
    (hits wbhitsV1 : List Fa250Mode1Hit) :
    (evnt s hits wbhitsV1).isSome = true ↔
      (∀ hit ∈ hits, Has pedestals parms 1 hit.channel) ∧ ∀ hit ∈ wbhitsV1, Has pedestals parms 2 hit.channel := by
  have hfadc := (calibrate_checked (Nat.le_refl 1) dTofFADC_isSome pedestals parms).foldlM
  have hwb := (calibrate_checked (Nat.le_succ 1) (fun v _ => dTofWaveboard_isSome v) pedestals parms).foldlM
  rw [← hfadc.isSome_iff s hits hs]
  unfold evnt
  cases hrun : hits.foldlM (calibrate dTofFADC) s with
  | none => simp
  | some s' => simpa using hwb.isSome_iff s' wbhitsV1 (hfadc.keeps s hits s' hs hrun)

end PedSub

/-! ## `CalorimeterHit_factory` -/

structure CalorimeterDigiHit where
  channel : CaloIndex
  Q : ℚ
  T : ℚ
  A : ℚ
  RMSflag : Bool

/-- `CalorimeterHit`; `none` is a member that is not set. -/
structure CalorimeterHit where
  channel : CaloIndex
  E : ℚ
  T : Option ℚ
  Eraw : ℚ
  A : ℚ
  RMSflag : Option Bool

namespace CalorimeterHitFactory

/-- The parameters, with their defaults. -/
structure Parms where
  thrSingleReadout : Int := 5
  thrMultipleReadout : Int := 3
  nMultipleReadout : Int := 2

/-- The handler of `/Calorimeter/Ene`, and the hits published so far. -/
structure State where
  ene : CalibrationHandler CaloIndex
  data : List CalorimeterHit := []

/-- The index of a detector instead of a sensor. -/
def detector (channel : CaloIndex) : CaloIndex := { channel with readout := 0 }

/-- `m_map`: the hits of every detector. -/
def hitMap (digis : List CalorimeterDigiHit) : StdMap CaloIndex (List CalorimeterDigiHit) :=
  digis.foldl (fun map digi =>
    if digi.channel.readout ≠ 1 then map
    else map.alter (detector digi.channel) (fun old => old.getD [] ++ [digi])) .empty

/-- The variables of the loop over the hits of one detector. -/
structure Multi where
  countOk : Int := 0
  Qtot : ℚ := 0
  Qmax : ℚ := -9999
  Tmax : Option ℚ := none

def scan (q : Parms) (digis : List CalorimeterDigiHit) : Multi :=
  digis.foldl (fun m digi =>
    let m : Multi :=
      if digi.Q > (q.thrMultipleReadout : ℚ) then { m with countOk := m.countOk + 1, Qtot := m.Qtot + digi.Q } else m
    if digi.Q > m.Qmax then { m with Qmax := digi.Q, Tmax := some digi.T } else m) {}

/-- `gain` and `ped`: the channel is looked up twice. -/
def readEne (ene : CalibrationHandler CaloIndex) (channel : CaloIndex) :
    Option (ℚ × ℚ × CalibrationHandler CaloIndex) := do
  let (first, ene) := ene.getCalib channel
  let gain ← first[0]?
  let (second, ene) := ene.getCalib channel
  let ped ← second[1]?
  some (gain, ped, ene)

def energy (Q gain ped : ℚ) : ℚ := if gain ≠ 0 then (Q - ped) / gain else Q - ped

/-- The body of the loop over `m_map`. -/
def publish (q : Parms) (s : State) (digis : List CalorimeterDigiHit) : Option State :=
  match digis with
  | [] => some s
  | [digi] =>
    if digi.Q > q.thrSingleReadout then do
      let channel := detector digi.channel
      let (gain, ped, ene) ← readEne s.ene channel
      let hit : CalorimeterHit :=
        { channel, T := some digi.T, Eraw := digi.Q, A := digi.A, RMSflag := some digi.RMSflag
          E := energy digi.Q gain ped }
      some { ene, data := s.data ++ [hit] }
    else some s
  | digi₀ :: digi₁ :: rest =>
    let m := scan q (digi₀ :: digi₁ :: rest)
    if m.countOk ≥ q.nMultipleReadout then do
      -- the pointer of the loop is left at the last hit
      let last := (digi₁ :: rest).getLast (by simp)
      let channel := detector last.channel
      let (gain, ped, ene) ← readEne s.ene channel
      let hit : CalorimeterHit :=
        { channel, T := m.Tmax, Eraw := m.Qmax, A := last.A, RMSflag := none, E := energy m.Qmax gain ped }
      some { ene, data := s.data ++ [hit] }
    else some s

def evnt (q : Parms) (s : State) (digis : List CalorimeterDigiHit) : Option State :=
  ((hitMap digis).entries.map Prod.snd).foldlM (publish q) s

/-- The channel that is looked up for the hits of a detector. -/
def lookedUp (q : Parms) (digis : List CalorimeterDigiHit) : Option CaloIndex :=
  match digis with
  | [] => none
  | [digi] => if digi.Q > q.thrSingleReadout then some (detector digi.channel) else none
  | digi₀ :: digi₁ :: rest =>
    if (scan q (digi₀ :: digi₁ :: rest)).countOk ≥ q.nMultipleReadout then
      some (detector ((digi₁ :: rest).getLast (by simp)).channel)
    else none

theorem readEne_cases {t : Table} {ene : CalibrationHandler CaloIndex} (h : Serves t ene) (channel : CaloIndex) :
    ((readEne ene channel).isSome = true ↔ 2 ≤ (tableLookup t channel).length) ∧
      ∀ r, readEne ene channel = some r → Serves t r.2.2 := by
  have hsecond := h.getCalib channel
  unfold readEne
  simp only [h channel, hsecond channel]
  constructor
  · exact isSome_twoReads _ _
  · intro r hr
    simp only [Option.bind_eq_bind, Option.bind_eq_some_iff] at hr
    obtain ⟨_, _, _, _, hr⟩ := hr
    rw [← Option.some.inj hr]
    exact hsecond.getCalib channel

/-- The hit of a detector, once it has its constants. -/
def hitFrom (q : Parms) (digis : List CalorimeterDigiHit) (gain ped : ℚ) : CalorimeterHit :=
  match digis with
  | [] => ⟨default, 0, none, 0, 0, none⟩
  | [digi] => ⟨detector digi.channel, energy digi.Q gain ped, some digi.T, digi.Q, digi.A, some digi.RMSflag⟩
  | digi₀ :: digi₁ :: rest =>
    let m := scan q (digi₀ :: digi₁ :: rest)
    let last := (digi₁ :: rest).getLast (by simp)
    ⟨detector last.channel, energy m.Qmax gain ped, m.Tmax, m.Qmax, last.A, none⟩

/-- A detector is looked up at most once, and then it is published. -/
theorem publish_eq (q : Parms) (s : State) (digis : List CalorimeterDigiHit) :
    publish q s digis = match lookedUp q digis with
      | none => some s
      | some channel => (readEne s.ene channel).map (fun r => ⟨r.2.2, s.data ++ [hitFrom q digis r.1 r.2.1]⟩) := by
  match digis with
  | [] => rfl
  | [digi] =>
      simp only [publish, lookedUp]
      by_cases hQ : digi.Q > (q.thrSingleReadout : ℚ)
      · rw [if_pos hQ, if_pos hQ]
        simp only
        cases readEne s.ene (detector digi.channel) <;> rfl
      · rw [if_neg hQ, if_neg hQ]
  | digi₀ :: digi₁ :: rest =>
      simp only [publish, lookedUp]
      by_cases hok : (scan q (digi₀ :: digi₁ :: rest)).countOk ≥ q.nMultipleReadout
      · rw [if_pos hok, if_pos hok]
        simp only
        cases readEne s.ene (detector ((digi₁ :: rest).getLast (by simp)).channel) <;> rfl
      · rw [if_neg hok, if_neg hok]

theorem publish_checked (q : Parms) (t : Table) :
    Checked (publish q) (fun s => Serves t s.ene)
      (fun digis => ∀ channel, lookedUp q digis = some channel → 2 ≤ (tableLookup t channel).length) := by
  constructor
  · intro s digis hs
    rw [publish_eq]
    cases lookedUp q digis with
    | none => simp
    | some channel =>
        simp only [Option.isSome_map, Option.some.injEq, forall_eq']
        exact (readEne_cases hs channel).1
  · intro s digis s' hs hstep
    rw [publish_eq] at hstep
    cases hlooked : lookedUp q digis with
    | none =>
        rw [hlooked] at hstep
        rw [← Option.some.inj hstep]
        exact hs
    | some channel =>
        rw [hlooked] at hstep
        obtain ⟨r, hr, hs'⟩ := Option.map_eq_some_iff.mp hstep
        rw [← hs']
        exact (readEne_cases hs channel).2 r hr

theorem evnt_isSome_iff (q : Parms) {t : Table} {s : State} (hs : Serves t s.ene)
    (digis : List CalorimeterDigiHit) :
    (evnt q s digis).isSome = true ↔ ∀ group ∈ (hitMap digis).entries, ∀ channel,
      lookedUp q group.2 = some channel → 2 ≤ (tableLookup t channel).length := by
  have hrun := (publish_checked q t).foldlM.isSome_iff s ((hitMap digis).entries.map Prod.snd) hs
  rw [List.forall_mem_map] at hrun
  exact hrun

end CalorimeterHitFactory


/-! ## `IntVetoSiPMHit_factory` -/

/-- `fa250Mode7Hit`. -/
structure Pulse where
  tdc : Int
  adc : Int
  ped : Int
  max : Int

structure Fa250Mode7Hit extends Fa250Hit where
  pulses : List Pulse := []

/-- `IntVetoSiPMHit`, as far as the factory reads and sets it. -/
structure IntVetoSiPMHit where
  channel : ChannelInfo
  Qraw : ℚ
  Araw : ℚ
  Qphe : ℚ
  Aphe : ℚ

/-- A translation table whose veto channels have the index of a veto channel. -/
structure VetoTable where
  tt : StdMap Csc ChannelInfo
  typed : VetoTyped tt

/-- The table of a document. -/
def VetoTable.ofDocument (doc : List Element) : VetoTable := ⟨(parseDocument doc).tt, parseDocument_vetoTyped doc⟩

/-- `getChannelInfo`. -/
def VetoTable.getChannelInfo (t : VetoTable) (csc : Csc) : ChannelInfo :=
  (t.tt.find? csc).getD { detSys := .unknownDetector }

/-- `m_channel.int_veto`, where the union points to a veto channel. -/
def ChannelInfo.intVeto (info : ChannelInfo) : Option IntVetoIndex :=
  match info.index with
  | some (.intVeto i) => some i
  | _ => none

namespace IntVetoSiPMHitFactory

/-- The handlers of `/InnerVeto/sipm_gain` and `/InnerVeto/sipm_ampl`, and the hits published so far. -/
structure State where
  sipmGain : CalibrationHandler IntVetoIndex
  sipmAmpl : CalibrationHandler IntVetoIndex
  data : List IntVetoSiPMHit := []

/-- `m_intVetofa250Converter->convertHit`, for the two kinds of hits. -/
structure Converter where
  convertMode1 : Fa250Mode1CalibPedSubHit → ChannelInfo → Nat → IntVetoSiPMHit
  convertMode7 : Fa250Mode7Hit → ChannelInfo → Nat → IntVetoSiPMHit

/-- `Qphe` of a converted hit: the channel is looked up twice. -/
def calibrateQ (s : State) (i : IntVetoIndex) (hit : IntVetoSiPMHit) : Option (IntVetoSiPMHit × State) := do
  let (first, sipmGain) := s.sipmGain.getCalib i
  let gain ← first[0]?
  let (second, sipmGain) := sipmGain.getCalib i
  let ped ← second[1]?
  let Qphe := hit.Qraw - ped
  let Qphe := if gain > 0 then Qphe / gain else Qphe
  some ({ hit with Qphe }, { s with sipmGain })

/-- `Aphe` of a converted hit. -/
def calibrateA (s : State) (i : IntVetoIndex) (hit : IntVetoSiPMHit) : Option (IntVetoSiPMHit × State) := do
  let (v, sipmAmpl) := s.sipmAmpl.getCalib i
  let ampl ← v[0]?
  let Aphe := if ampl > 0 then hit.Araw / ampl else hit.Araw
  some ({ hit with Aphe }, { s with sipmAmpl })

/-- The body of the loop over the mode 1 hits. -/
def mode1 (c : Converter) (tt : VetoTable) (eventnumber : Nat) (s : State) (hit : Fa250Mode1CalibPedSubHit) :
    Option State :=
  let channel := tt.getChannelInfo hit.channel
  if channel.detSys = .intVeto then do
    let out := c.convertMode1 hit channel eventnumber
    let i ← channel.intVeto
    let (out, s) ← calibrateQ s i out
    let (out, s) ← calibrateA s i out
    some { s with data := s.data ++ [out] }
  else some s

/-- The body of the loop over the mode 7 hits. -/
def mode7 (c : Converter) (tt : VetoTable) (eventnumber : Nat) (s : State) (hit : Fa250Mode7Hit) : Option State :=
  let channel := tt.getChannelInfo hit.channel
  if channel.detSys = .intVeto then do
    let out := c.convertMode7 hit channel eventnumber
    let i ← channel.intVeto
    let (out, s) ← calibrateQ s i out
    some { s with data := s.data ++ [out] }
  else some s

def evnt (c : Converter) (tt : VetoTable) (eventnumber : Nat) (s : State)
    (hits1 : List Fa250Mode1CalibPedSubHit) (hits7 : List Fa250Mode7Hit) : Option State := do
  let s ← hits1.foldlM (mode1 c tt eventnumber) s
  hits7.foldlM (mode7 c tt eventnumber) s

/-- The handlers answer from the tables. -/
def Ready (gain ampl : Table) (s : State) : Prop := Serves gain s.sipmGain ∧ Serves ampl s.sipmAmpl

/-- The veto channel of a digitiser channel, if it is one. -/
def vetoChannel (tt : VetoTable) (csc : Csc) : Option IntVetoIndex :=
  let channel := tt.getChannelInfo csc
  if channel.detSys = .intVeto then channel.intVeto else none

theorem calibrateQ_cases {gain ampl : Table} {s : State} (hs : Ready gain ampl s) (i : IntVetoIndex)
    (hit : IntVetoSiPMHit) :
    ((calibrateQ s i hit).isSome = true ↔ 2 ≤ (tableLookup gain i).length) ∧
      ∀ r, calibrateQ s i hit = some r → Ready gain ampl r.2 := by
  obtain ⟨hgain, hampl⟩ := hs
  have hsecond := hgain.getCalib i
  unfold calibrateQ
  simp only [hgain i, hsecond i]
  constructor
  · exact isSome_twoReads _ _
  · intro r hr
    simp only [Option.bind_eq_bind, Option.bind_eq_some_iff] at hr
    obtain ⟨_, _, _, _, hr⟩ := hr
    rw [← Option.some.inj hr]
    exact ⟨hsecond.getCalib i, hampl⟩

theorem calibrateA_cases {gain ampl : Table} {s : State} (hs : Ready gain ampl s) (i : IntVetoIndex)
    (hit : IntVetoSiPMHit) :
    ((calibrateA s i hit).isSome = true ↔ 1 ≤ (tableLookup ampl i).length) ∧
      ∀ r, calibrateA s i hit = some r → Ready gain ampl r.2 := by
  obtain ⟨hgain, hampl⟩ := hs
  unfold calibrateA
  simp only [hampl i]
  constructor
  · match tableLookup ampl i with
    | [] => simp
    | _ :: _ => simp
  · intro r hr
    simp only [Option.bind_eq_bind, Option.bind_eq_some_iff] at hr
    obtain ⟨_, _, hr⟩ := hr
    rw [← Option.some.inj hr]
    exact ⟨hgain, hampl.getCalib i⟩

/-- Whether a channel of the table is a veto channel, and which one. -/
theorem vetoChannel_cases (tt : VetoTable) (csc : Csc) :
    ((tt.getChannelInfo csc).detSys ≠ .intVeto ∧ vetoChannel tt csc = none) ∨
      ∃ i, (tt.getChannelInfo csc).detSys = .intVeto ∧ (tt.getChannelInfo csc).intVeto = some i ∧
        vetoChannel tt csc = some i := by
  by_cases hdet : (tt.getChannelInfo csc).detSys = .intVeto
  · have htyped : ∃ i, (tt.getChannelInfo csc).intVeto = some i := by
      unfold VetoTable.getChannelInfo at hdet ⊢
      cases hfind : tt.tt.find? csc with
      | none =>
          rw [hfind] at hdet
          exact absurd hdet (by decide)
      | some info =>
          rw [hfind] at hdet
          obtain ⟨i, hi⟩ := tt.typed csc info hfind hdet
          exact ⟨i, by simp [ChannelInfo.intVeto, hi]⟩
    obtain ⟨i, hi⟩ := htyped
    exact Or.inr ⟨i, hdet, hi, by simp [vetoChannel, hdet, hi]⟩
  · exact Or.inl ⟨hdet, by simp [vetoChannel, hdet]⟩

section Loops

variable (c : Converter) (tt : VetoTable) (eventnumber : Nat) (gain ampl : Table)

theorem mode1_checked :
    Checked (mode1 c tt eventnumber) (Ready gain ampl) (fun hit => ∀ i, vetoChannel tt hit.channel = some i →
      2 ≤ (tableLookup gain i).length ∧ 1 ≤ (tableLookup ampl i).length) := by
  constructor
  · intro s hit hs
    rcases vetoChannel_cases tt hit.channel with ⟨hdet, hnone⟩ | ⟨i, hdet, hi, hsome⟩
    · simp [mode1, hdet, hnone]
    · simp only [mode1, hdet, if_true, hi, hsome, Option.bind_eq_bind, Option.bind_some, Option.some.injEq, forall_eq']
      obtain ⟨hQ, hkeep⟩ := calibrateQ_cases hs i (c.convertMode1 hit (tt.getChannelInfo hit.channel) eventnumber)
      cases hq : calibrateQ s i (c.convertMode1 hit (tt.getChannelInfo hit.channel) eventnumber) with
      | none =>
          have hfew : ¬ 2 ≤ (tableLookup gain i).length := by
            rw [← hQ, hq]
            exact Bool.false_ne_true
          simp [hfew]
      | some r =>
          have hA := (calibrateA_cases (hkeep r hq) i r.1).1
          have hQ' : 2 ≤ (tableLookup gain i).length := hQ.mp (by rw [hq]; rfl)
          simp only [Option.bind_some, hQ', true_and, ← hA]
          cases calibrateA r.2 i r.1 <;> simp
  · intro s hit s' hs hstep
    rcases vetoChannel_cases tt hit.channel with ⟨hdet, hnone⟩ | ⟨i, hdet, hi, hsome⟩
    · simp only [mode1, hdet, if_false, Option.some.injEq] at hstep
      rw [← hstep]
      exact hs
    · simp only [mode1, hdet, if_true, hi, Option.bind_eq_bind, Option.bind_some, Option.bind_eq_some_iff] at hstep
      obtain ⟨r, hr, r', hr', hs'⟩ := hstep
      have hready := (calibrateQ_cases hs i _).2 r hr
      have hready' := (calibrateA_cases hready i r.1).2 r' hr'
      rw [← Option.some.inj hs']
      exact hready'

theorem mode7_checked :
    Checked (mode7 c tt eventnumber) (Ready gain ampl) (fun hit => ∀ i, vetoChannel tt hit.channel = some i →
      2 ≤ (tableLookup gain i).length) := by
  constructor
  · intro s hit hs
    rcases vetoChannel_cases tt hit.channel with ⟨hdet, hnone⟩ | ⟨i, hdet, hi, hsome⟩
    · simp [mode7, hdet, hnone]
    · simp only [mode7, hdet, if_true, hi, hsome, Option.bind_eq_bind, Option.bind_some, Option.some.injEq, forall_eq']
      rw [← (calibrateQ_cases hs i (c.convertMode7 hit (tt.getChannelInfo hit.channel) eventnumber)).1]
      cases calibrateQ s i (c.convertMode7 hit (tt.getChannelInfo hit.channel) eventnumber) <;> simp
  · intro s hit s' hs hstep
    rcases vetoChannel_cases tt hit.channel with ⟨hdet, hnone⟩ | ⟨i, hdet, hi, hsome⟩
    · simp only [mode7, hdet, if_false, Option.some.injEq] at hstep
      rw [← hstep]
      exact hs
    · simp only [mode7, hdet, if_true, hi, Option.bind_eq_bind, Option.bind_some, Option.bind_eq_some_iff] at hstep
      obtain ⟨r, hr, hs'⟩ := hstep
      have hready := (calibrateQ_cases hs i _).2 r hr
      rw [← Option.some.inj hs']
      exact hready

variable {gain ampl} in
theorem evnt_isSome_iff {s : State} (hs : Ready gain ampl s) (hits1 : List Fa250Mode1CalibPedSubHit)
    (hits7 : List Fa250Mode7Hit) :
    (evnt c tt eventnumber s hits1 hits7).isSome = true ↔
      (∀ hit ∈ hits1, ∀ i, vetoChannel tt hit.channel = some i →
        2 ≤ (tableLookup gain i).length ∧ 1 ≤ (tableLookup ampl i).length) ∧
      ∀ hit ∈ hits7, ∀ i, vetoChannel tt hit.channel = some i → 2 ≤ (tableLookup gain i).length := by
  have h1 := (mode1_checked c tt eventnumber gain ampl).foldlM
  have h7 := (mode7_checked c tt eventnumber gain ampl).foldlM
  rw [← h1.isSome_iff s hits1 hs]
  unfold evnt
  cases hrun : hits1.foldlM (mode1 c tt eventnumber) s with
  | none => simp
  | some s' => simpa using h7.isSome_iff s' hits7 (h1.keeps s hits1 s' hs hrun)

end Loops

end IntVetoSiPMHitFactory

/-! ## `Calorimeterfa250Converter::convertMode1Hit` -/

/-- The part of `convertMode1Hit` that reads the data base, for a hit of the channel: `m_THR`, `m_MIN_TOT` and
    `m_SIGNAL_TOT`. -/
def readThresholds (thrDB : CalibrationHandler CaloIndex) (channel : CaloIndex) :
    Option ((ℚ × ℚ × ℚ) × CalibrationHandler CaloIndex) := do
  let (calib, thrDB) := thrDB.getCalib channel
  let THR ← calib[0]?
  let MIN_TOT ← calib[1]?
  let SIGNAL_TOT ← calib[2]?
  some ((THR, MIN_TOT, SIGNAL_TOT), thrDB)

/-- The conversion of some hits, as far as the data base goes. -/
def convertMode1Hits (thrDB : CalibrationHandler CaloIndex) (channels : List CaloIndex) :
    Option (CalibrationHandler CaloIndex) :=
  channels.foldlM (fun thrDB channel => (readThresholds thrDB channel).map Prod.snd) thrDB

theorem readThresholds_checked (t : Table) :
    Checked (fun thrDB channel => (readThresholds thrDB channel).map Prod.snd) (Serves t)
      (fun channel => 3 ≤ (tableLookup t channel).length) := by
  constructor
  · intro thrDB channel hs
    rw [Option.isSome_map]
    unfold readThresholds
    simp only [hs channel]
    match tableLookup t channel with
    | [] => simp
    | [_] => simp
    | [_, _] => simp
    | _ :: _ :: _ :: _ => simp
  · intro thrDB channel thrDB' hs hstep
    obtain ⟨r, hr, rfl⟩ := Option.map_eq_some_iff.mp hstep
    unfold readThresholds at hr
    simp only [Option.bind_eq_bind, Option.bind_eq_some_iff] at hr
    obtain ⟨_, _, _, _, _, _, hr⟩ := hr
    rw [← Option.some.inj hr]
    exact hs.getCalib channel

/-! ## All readers -/

/-- The tables of the readers, each with its handler in any state that lookups can leave it in. -/
structure ReaderTables where
  pedestals : LoadedTable Csc
  parms : LoadedTable Csc
  ene : LoadedTable CaloIndex
  sipmGain : LoadedTable IntVetoIndex
  sipmAmpl : LoadedTable IntVetoIndex
  thrDB : LoadedTable CaloIndex

/-- The hits of an event, for every reader; `converted` are the channels of the waveforms the calorimeter converts. -/
structure ReaderEvent where
  eventnumber : Nat
  hits : List Fa250Mode1Hit
  wbhitsV1 : List Fa250Mode1Hit
  digis : List CalorimeterDigiHit
  hits1 : List Fa250Mode1CalibPedSubHit
  hits7 : List Fa250Mode7Hit
  converted : List CaloIndex

section Readers

variable (l : ReaderTables) (q : CalorimeterHitFactory.Parms) (c : IntVetoSiPMHitFactory.Converter) (tt : VetoTable)
  (e : ReaderEvent)

/-- **All reads exist**: no reader leaves the vector it got from `getCalib`. -/
def ReadsExist : Prop :=
  (PedSub.evnt { pedestals := l.pedestals.handler, parms := l.parms.handler } e.hits e.wbhitsV1).isSome = true ∧
  (CalorimeterHitFactory.evnt q { ene := l.ene.handler } e.digis).isSome = true ∧
  (IntVetoSiPMHitFactory.evnt c tt e.eventnumber
    { sipmGain := l.sipmGain.handler, sipmAmpl := l.sipmAmpl.handler } e.hits1 e.hits7).isSome = true ∧
  (convertMode1Hits l.thrDB.handler e.converted).isSome = true

/-- **The tables cover the event**: every channel that is looked up has a row, with as many data columns as are
    read. -/
structure Covered : Prop where
  pedSubFADC : ∀ hit ∈ e.hits, PedSub.Has l.pedestals.table l.parms.table 1 hit.channel
  pedSubWaveboard : ∀ hit ∈ e.wbhitsV1, PedSub.Has l.pedestals.table l.parms.table 2 hit.channel
  calorimeter : ∀ group ∈ (CalorimeterHitFactory.hitMap e.digis).entries, ∀ channel,
    CalorimeterHitFactory.lookedUp q group.2 = some channel → 2 ≤ (tableLookup l.ene.table channel).length
  vetoMode1 : ∀ hit ∈ e.hits1, ∀ i, IntVetoSiPMHitFactory.vetoChannel tt hit.channel = some i →
    2 ≤ (tableLookup l.sipmGain.table i).length ∧ 1 ≤ (tableLookup l.sipmAmpl.table i).length
  vetoMode7 : ∀ hit ∈ e.hits7, ∀ i, IntVetoSiPMHitFactory.vetoChannel tt hit.channel = some i →
    2 ≤ (tableLookup l.sipmGain.table i).length
  thresholds : ∀ channel ∈ e.converted, 3 ≤ (tableLookup l.thrDB.table channel).length

/-- **The readers stay inside their vectors when the tables cover the event**, and only then. -/
theorem readsExist_iff : ReadsExist l q c tt e ↔ Covered l q tt e := by
  have hpedSub := PedSub.evnt_isSome_iff
    (s := { pedestals := l.pedestals.handler, parms := l.parms.handler })
    ⟨l.pedestals.serves, l.parms.serves⟩ e.hits e.wbhitsV1
  have hcalorimeter := CalorimeterHitFactory.evnt_isSome_iff q (s := { ene := l.ene.handler }) l.ene.serves e.digis
  have hveto := IntVetoSiPMHitFactory.evnt_isSome_iff c tt e.eventnumber
    (s := { sipmGain := l.sipmGain.handler, sipmAmpl := l.sipmAmpl.handler })
    ⟨l.sipmGain.serves, l.sipmAmpl.serves⟩ e.hits1 e.hits7
  have hconverter := (readThresholds_checked l.thrDB.table).foldlM.isSome_iff l.thrDB.handler e.converted
    l.thrDB.serves
  unfold ReadsExist convertMode1Hits
  rw [hpedSub, hcalorimeter, hveto, hconverter]
  constructor
  · rintro ⟨⟨hfadc, hwb⟩, hcalo, ⟨h1, h7⟩, hthr⟩
    exact ⟨hfadc, hwb, hcalo, h1, h7, hthr⟩
  · rintro ⟨hfadc, hwb, hcalo, h1, h7, hthr⟩
    exact ⟨⟨hfadc, hwb⟩, hcalo, ⟨h1, h7⟩, hthr⟩

end Readers

/-! ## A channel without a row -/

/-- Pedestals for the channel 1 of the slot 3 of the crate 0 only, and parameters for the channels 1 and 2. -/
def channelOneTables : ReaderTables where
  pedestals := ⟨"/DAQ/pedestals", [[0, 3, 1, 100, 2]], by unfold InRange; decide, []⟩
  parms := ⟨"/DAQ/parms", [[0, 3, 1, 1, 4], [0, 3, 2, 1, 4]], by unfold InRange; decide, []⟩
  ene := ⟨"/Calorimeter/Ene", [], by simp [InRange], []⟩
  sipmGain := ⟨"/InnerVeto/sipm_gain", [], by simp [InRange], []⟩
  sipmAmpl := ⟨"/InnerVeto/sipm_ampl", [], by simp [InRange], []⟩
  thrDB := ⟨"/Calorimeter/thr", [], by simp [InRange], []⟩

/-- An event with one waveform, of the channel 2. -/
def channelTwoEvent : ReaderEvent where
  eventnumber := 1
  hits := [{ channel := ⟨0, 3, 2⟩, samples := [101, 102] }]
  wbhitsV1 := []
  digis := []
  hits1 := []
  hits7 := []
  converted := []

/-- A converter of empty pulses. -/
def emptyPulses : IntVetoSiPMHitFactory.Converter where
  convertMode1 _ channel _ := ⟨channel, 0, 0, 0, 0⟩
  convertMode7 _ channel _ := ⟨channel, 0, 0, 0, 0⟩

theorem channelTwo_not_readsExist :
    ¬ ReadsExist channelOneTables {} emptyPulses (VetoTable.ofDocument []) channelTwoEvent := by
  intro h
  have hpedSub := h.1
  revert hpedSub
  decide

end BdxReco
